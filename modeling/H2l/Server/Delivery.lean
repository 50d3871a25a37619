import H2l.Base.Refinement
import H2l.Link.Preface
import H2l.Server.Order
import H2l.Server.Registry
import H2l.Server.Tokens
import H2l.Server.Turns
import Mathlib.Data.List.Basic

/-!
# The server is a registry

Tasks, channels and sockets are seen as a registry: what a link's read loop has not
delivered, what waits on the shared channel and what the forward loop has in hand are the
inbox of the link, and a message is an event when the forward loop handles it.
-/

namespace H2l

open Base

/-- The frames in the messages that a link's loops sent. -/
def framesOf (ref : LinkRef) (messages : List Message) : List Frame :=
  messages.filterMap fun message =>
    if message.sender = some ref then message.body.carried else none

/-- The frames that a read loop has yet to put on the shared channel. -/
def LinkState.unread (parse : HttpParser) (link : LinkState) : List Frame :=
  match link.reader with
  | .handshaking stream => Link.delivered parse link.token LinkFlags.none.bits stream
  | .reading input => Loop.values (Link.frameLoop input)
  | .delivering frame rest => frame :: Loop.values (Link.frameLoop rest)
  | .closing _ | .panicked => []

/-- The forward loop makes its last call, or has made it. -/
def ForwardPc.closed : ForwardPc → Bool
  | calling _ last => last
  | exited => true
  | _ => false

@[simp] theorem ForwardPc.closed_receiving : receiving.closed = false := rfl

@[simp] theorem ForwardPc.closed_calling (tr : Transaction) (last : Bool) :
    (calling tr last).closed = last := rfl

namespace ServerState

/-- The messages that the forward loop is done with, but for the call of the closure. -/
def applied (state : ServerState) : List Message :=
  state.consumed.take (state.consumed.length - state.forward.current.length)

/-- What has arrived of a link's frames, and what is still to come. -/
def inbox (parse : HttpParser) (state : ServerState) (ref : LinkRef) (link : LinkState) :
    List Frame :=
  framesOf ref (state.forward.current ++ state.channel.items) ++ link.unread parse

/-- What the closure is called with for a message. -/
def report (state : ServerState) (message : Message) : Option Report :=
  match message.body with
  | .frame carried token =>
      if carried.isContent then some (message.subject, .frame carried token) else none
  | .newLink ref => some (message.subject, .linkChanged .attached (state.tokenOf ref))
  | .linkChanged flags token =>
      if linkChangedArm flags = .detach then some (message.subject, .linkChanged .detached token)
      else none
  | .serverChanged flags =>
      if flags = .acceptLoopExited then
        some (message.subject, .serverChanged .forwardLoopExited)
      else none
  | tr => some (message.subject, tr)

/-- The registry that a server is. -/
def registry (parse : HttpParser) (state : ServerState) : Registry where
  peers := state.created.mapIdx fun index link => ⟨link.token, state.inbox parse ⟨index⟩ link⟩
  table := state.links
  told := state.applied.filterMap state.report
  closed := state.forward.closed

end ServerState

/-- The event that handling a message is. -/
def Message.event : Message → Option RegistryEvent
  | ⟨.frame _ _, some ref⟩ => some (.look ref)
  | ⟨.newLink ref, _⟩ => some (.attach ref)
  | ⟨.linkChanged flags _, some ref⟩ =>
      if linkChangedArm flags = .detach then some (.detach ref) else none
  | ⟨.serverChanged flags, _⟩ => if flags = .acceptLoopExited then some .close else none
  | _ => none

/-- The event that a step is. -/
def ServerState.event (parse : HttpParser) (state : ServerState) :
    ServerLabel → Option RegistryEvent
  | .connect token stream => some (.join token ((LinkState.new token stream).unread parse))
  | .forward => state.forward.current.head?.bind Message.event
  | _ => none

/-- The messages of the shared channel: a link's loops send frames and flags under its token,
the accept loop sends the rest. -/
inductive Proper (state : ServerState) : Message → Prop where
  | frame {carried ref} (known : ref.index < state.created.length) :
      Proper state ⟨.frame carried (some (state.tokenOf ref)), some ref⟩
  | changed {flags ref} (known : ref.index < state.created.length) :
      Proper state ⟨.linkChanged flags (state.tokenOf ref), some ref⟩
  | registers {ref} (known : ref.index < state.created.length) :
      Proper state ⟨.newLink ref, none⟩
  | exits : Proper state ⟨.serverChanged .acceptLoopExited, none⟩

variable {parse : HttpParser} {state after : ServerState}

/-- The frames of a link in two stretches of messages. -/
theorem framesOf_append (ref : LinkRef) (first second : List Message) :
    framesOf ref (first ++ second) = framesOf ref first ++ framesOf ref second :=
  List.filterMap_append

/-- A loop sends frames and flags under the token of its link. -/
theorem LinkMove.body {link next : LinkState} {body : Transaction}
    (move : LinkMove parse link next (some body)) :
    (∃ frame, body = .frame frame (some link.token)) ∨
      ∃ flags, body = .linkChanged flags link.token := by
  generalize posted : some body = sent at move
  cases move with
  | delivered =>
      cases posted
      exact .inl ⟨_, rfl⟩
  | @readerExits pc next word message | @writerExits pc next word message =>
      cases message with
      | none => cases posted
      | some flags =>
          cases posted
          exact .inr ⟨flags, rfl⟩
  | _ => cases posted

/-- A message stays one of its link while links only move. -/
theorem Proper.kept (moves : LinksMove parse state after) {message : Message}
    (proper : Proper state message) : Proper after message := by
  have grows := moves.length_le
  cases proper with
  | frame known =>
      rw [← moves.tokenOf known]
      exact .frame (Nat.lt_of_lt_of_le known grows)
  | changed known =>
      rw [← moves.tokenOf known]
      exact .changed (Nat.lt_of_lt_of_le known grows)
  | registers known => exact .registers (Nat.lt_of_lt_of_le known grows)
  | exits => exact .exits

/-- Every message ever put on the shared channel is a proper one. -/
theorem proper_of_reachable (reachable : (serverMachine parse).Reachable state) :
    ∀ message ∈ state.history, Proper state message := by
  obtain ⟨start, trace, rfl, run⟩ := reachable
  induction run with
  | nil => exact fun message member => absurd member List.not_mem_nil
  | @snoc trace before label after prior taken ih =>
      have move := step_move taken
      have moves := linksMove_of_move move
      obtain ⟨sent, posting, history⟩ := posting_of_move move
      rw [history]
      intro message member
      rcases List.mem_append.mp member with earlier | added
      · exact (ih message earlier).kept moves
      · cases posting with
        | silent => cases added
        | posted mover found move =>
            obtain rfl := List.mem_singleton.mp added
            have known := link_lt found
            refine Proper.kept moves ?_
            rcases move.body with ⟨frame, rfl⟩ | ⟨flags, rfl⟩
            · rw [← link_token found]
              exact .frame known
            · rw [← link_token found]
              exact .changed known
        | registered place =>
            obtain rfl := List.mem_singleton.mp added
            exact .kept moves (.registers ((tokenInv_of_run prior).pending _ place).1)
        | announced =>
            obtain rfl := List.mem_singleton.mp added
            exact .exits

/-- A turn of the frame loop that reads a frame. -/
theorem link_values_ok {input rest : TcpInput} {frame : Frame}
    (reads : Link.readFrame input = (.ok frame, rest)) :
    Loop.values (Link.frameLoop input) = frame :: Loop.values (Link.frameLoop rest) :=
  congrArg Loop.values (Loop.run_ok (readFrame_drains .server) reads)

/-- A turn that reads no frame is the last one. -/
theorem link_values_nil {input rest : TcpInput} {outcome : Outcome Error Frame}
    (reads : Link.readFrame input = (outcome, rest)) (silent : ∀ frame, outcome ≠ .ok frame) :
    Loop.values (Link.frameLoop input) = [] := by
  refine Loop.values_eq_nil fun frame next delivers => silent frame ?_
  exact congrArg Prod.fst (reads.symm.trans delivers)

/-- A read loop keeps the token of its link. -/
theorem ReadTurn.token {link next : LinkState} {sent : Option Transaction}
    (turn : ReadTurn parse link next sent) : next.token = link.token := by
  cases turn <;> rfl

/-- A write loop keeps the token of its link. -/
theorem WriteTurn.token {link next : LinkState} {written : Bool} {sent : Option Transaction}
    (turn : WriteTurn link written next sent) : next.token = link.token := by
  cases turn <;> rfl

/-- What a read loop sends was the front of what was unread. -/
theorem ReadTurn.unread {link next : LinkState} {sent : Option Transaction}
    (turn : ReadTurn parse link next sent) :
    link.unread parse = (sent.bind Transaction.carried).toList ++ next.unread parse := by
  cases turn with
  | shaken pc calm => simp [LinkState.unread, pc, delivered_of_calm _ _ calm]
  | shakeUnwound pc unwinds => simp [LinkState.unread, pc, delivered_of_panic _ _ unwinds]
  | fetched pc reads => simp [LinkState.unread, pc, link_values_ok reads]
  | ended pc reads => simp [LinkState.unread, pc, link_values_nil reads]
  | unwound pc reads => simp [LinkState.unread, pc, link_values_nil reads]
  | delivered pc => simp [LinkState.unread, pc, Transaction.carried]
  | @exits pc next word message place advances =>
      cases message <;> simp [LinkState.unread, place, Transaction.carried]

/-- A write loop sends no frames, and leaves what is unread. -/
theorem WriteTurn.unread {link next : LinkState} {written : Bool} {sent : Option Transaction}
    (parse : HttpParser) (turn : WriteTurn link written next sent) :
    link.unread parse = (sent.bind Transaction.carried).toList ++ next.unread parse := by
  cases turn with
  | @exits pc next word message place advances =>
      cases message <;> simp [LinkState.unread, Transaction.carried]
  | _ => rfl

/-- The peer that a link is. -/
def ServerState.shown (parse : HttpParser) (state : ServerState) (ref : LinkRef) : Option Peer :=
  (state.link ref).map fun link => ⟨link.token, state.inbox parse ref link⟩

/-- The peer behind a reference is what the link shows of itself. -/
theorem registry_peer (state : ServerState) (ref : LinkRef) :
    (state.registry parse).peer ref = state.shown parse ref := by
  simp only [Registry.peer, ServerState.registry, List.getElem?_mapIdx]
  rfl

/-- So it is by its place in the list. -/
theorem registry_peers (state : ServerState) (ref : LinkRef) :
    (state.registry parse).peers[ref.index]? = state.shown parse ref :=
  registry_peer state ref

/-- Lists with the same peer at every place are the same. -/
theorem peers_ext {first second : List Peer}
    (same : ∀ ref : LinkRef, first[ref.index]? = second[ref.index]?) : first = second :=
  List.ext_getElem? fun index => same ⟨index⟩

/-- Two servers are one registry when their links, tables, reports and forward loops agree. -/
theorem registry_eq (peers : ∀ ref, after.shown parse ref = state.shown parse ref)
    (links : after.links = state.links)
    (told : after.applied.filterMap after.report = state.applied.filterMap state.report)
    (closed : after.forward.closed = state.forward.closed) :
    after.registry parse = state.registry parse := by
  have same : (after.registry parse).peers = (state.registry parse).peers :=
    peers_ext fun ref => by rw [registry_peers, registry_peers, peers]
  simp only [ServerState.registry] at same ⊢
  rw [same, links, told, closed]

/-- A report on a message does not change. -/
theorem report_kept (moves : LinksMove parse state after) {message : Message}
    (proper : Proper state message) : after.report message = state.report message := by
  cases proper with
  | @registers ref known =>
      simp only [ServerState.report]
      rw [moves.tokenOf known]
  | _ => rfl

/-- What was applied was posted. -/
theorem mem_history_of_applied {message : Message} (member : message ∈ state.applied) :
    message ∈ state.history :=
  List.mem_append_left _ (List.mem_of_mem_take member)

/-- Old reports do not change. -/
theorem reports_kept (reachable : (serverMachine parse).Reachable state)
    (moves : LinksMove parse state after) :
    state.applied.filterMap after.report = state.applied.filterMap state.report := by
  refine List.filterMap_congr fun message member => report_kept moves ?_
  exact proper_of_reachable reachable message (mem_history_of_applied member)

/-- Steps outside the forward loop leave what it has done. -/
theorem ForwardKept.applied (kept : ForwardKept state after) : after.applied = state.applied := by
  rw [ServerState.applied, ServerState.applied, kept.consumed, kept.forward]

/-- A message of one link has no frames of another. -/
theorem framesOf_other {ref mover : LinkRef} (other : ref ≠ mover) (sent : Option Transaction) :
    framesOf ref (sent.map fun body => (⟨body, some mover⟩ : Message)).toList = [] := by
  cases sent with
  | none => rfl
  | some body => simp [framesOf, Ne.symm other]

/-- A message of a link has the frame that it carries. -/
theorem framesOf_own (ref : LinkRef) (sent : Option Transaction) :
    framesOf ref (sent.map fun body => (⟨body, some ref⟩ : Message)).toList =
      (sent.bind Transaction.carried).toList := by
  cases sent with
  | none => rfl
  | some body => cases carries : body.carried <;> simp [framesOf, carries]

/-- A step of a link's loop is not seen. -/
theorem registry_of_loop (reachable : (serverMachine parse).Reachable state) {label : ServerLabel}
    {ref : LinkRef} (mover : label.loopOf = some ref)
    (taken : (serverMachine parse).step state label = some after) :
    after.registry parse = state.registry parse := by
  have moves := linksMove_of_move (step_move taken)
  have shows : ∀ {link next : LinkState} {sent : Option Transaction} {channel},
      state.link ref = some link →
      next.token = link.token →
      link.unread parse = (sent.bind Transaction.carried).toList ++ next.unread parse →
      channel.items =
        state.channel.items ++ (sent.map fun body => (⟨body, some ref⟩ : Message)).toList →
      after = { state with created := state.created.set ref.index next, channel } →
      after.registry parse = state.registry parse := by
    rintro link next sent channel found token unread items rfl
    refine registry_eq (fun other => ?_) rfl (reports_kept reachable moves) rfl
    have there : ServerState.link
        { state with created := state.created.set ref.index next, channel } other =
          if other = ref then some next else state.link other := link_set (link_lt found)
    rw [ServerState.shown, there, ServerState.shown]
    by_cases same : other = ref
    · subst same
      simp only [if_pos, found, Option.map_some, ServerState.inbox, items, ← List.append_assoc,
        framesOf_append _ (_ ++ _), framesOf_own, token, unread]
    · simp only [if_neg same, ServerState.inbox, items, ← List.append_assoc,
        framesOf_append _ (_ ++ _), framesOf_other same, List.append_nil]
  cases loop_turn mover taken with
  | @read ref' link next sent channel found turn items =>
      cases mover
      exact shows found turn.token turn.unread items rfl
  | @wrote ref' written link next sent channel found turn items =>
      cases mover
      exact shows found turn.token (turn.unread parse) items rfl

/-- A send to a link is not seen. -/
theorem shown_of_send {ref : LinkRef} {link next : LinkState} {tr : Transaction}
    (found : state.link ref = some link) (sends : link.send tr = .ok next) (other : LinkRef) :
    (state.setLink ref next).shown parse other = state.shown parse other := by
  obtain ⟨alive, outgoing, queued, rfl⟩ := send_ok sends
  have there : (state.setLink ref { link with outgoing }).link other =
      if other = ref then some { link with outgoing } else state.link other :=
    link_set (link_lt found)
  rw [ServerState.shown, there, ServerState.shown]
  by_cases same : other = ref
  · subst same
    rw [if_pos rfl, found]
    rfl
  · rw [if_neg same]
    rfl

/-- Messages of nobody carry no frames of a link. -/
theorem framesOf_silent (ref : LinkRef) (body : Transaction) :
    framesOf ref [(⟨body, none⟩ : Message)] = [] := by
  simp [framesOf]

/-- What user code does is not seen. -/
theorem registry_of_user (reachable : (serverMachine parse).Reachable state)
    (moves : LinksMove parse state after) (move : UserMove state after) :
    after.registry parse = state.registry parse := by
  have kept := move.frame.toForwardKept
  refine registry_eq ?_ kept.links (kept.applied ▸ reports_kept reachable moves)
    (congrArg ForwardPc.closed kept.forward)
  cases move with
  | queued found sends => exact shown_of_send found sends
  | _ => exact fun _ => rfl

/-- Nothing came of a link that is not there yet. -/
theorem framesOf_fresh (reachable : (serverMachine parse).Reachable state) {ref : LinkRef}
    (fresh : state.created.length ≤ ref.index) {messages : List Message}
    (among : ∀ message ∈ messages, message ∈ state.history) : framesOf ref messages = [] := by
  refine List.filterMap_eq_nil_iff.mpr fun message member => if_neg fun sender => ?_
  have proper := proper_of_reachable reachable message (among message member)
  cases proper with
  | frame known | changed known =>
      cases sender
      omega
  | registers | exits => cases sender

/-- What is waiting was posted. -/
theorem mem_history_of_waiting (inv : TokenInv state) {message : Message}
    (member : message ∈ state.forward.current ++ state.channel.items) :
    message ∈ state.history := by
  obtain ⟨earlier, applied⟩ := inv.applied
  rw [ServerState.history, applied.consumed, List.append_assoc]
  exact List.mem_append_right _ member

/-- A link that is accepted joins with the frames that its read loop delivers when left alone. -/
theorem registry_of_connect (reachable : (serverMachine parse).Reachable state) {token : Token}
    {stream : TcpStream} (free : state.tokenFree token)
    (same : after = { state with
      created := state.created ++ [.new token stream]
      accept := .registering ⟨state.created.length⟩ }) :
    registryMachine.step (state.registry parse)
      (.join token (Link.delivered parse token LinkFlags.none.bits stream)) =
        some (after.registry parse) := by
  have moves : LinksMove parse state after := .accepted free (by rw [same])
  have told := reports_kept reachable moves
  subst same
  obtain ⟨start, trace, rfl, run⟩ := reachable
  have silent : framesOf ⟨state.created.length⟩ (state.forward.current ++ state.channel.items) =
      [] := framesOf_fresh ⟨_, trace, rfl, run⟩ (Nat.le_refl _) fun message =>
    mem_history_of_waiting (tokenInv_of_run run)
  simp only [registryMachine, Registry.step, ServerState.registry, ServerState.inbox,
    List.mapIdx_append, List.mapIdx_cons, List.mapIdx_nil, Nat.zero_add, silent, List.nil_append,
    LinkState.new, LinkState.unread]
  exact congrArg (fun told => some (Registry.mk _ state.links told _)) told.symm

/-- The accept loop is seen only when it accepts a link. -/
theorem registry_of_acceptor (reachable : (serverMachine parse).Reachable state)
    {label : ServerLabel} (moves : LinksMove parse state after)
    (move : AcceptMove state label after) (quiet : state.event parse label = none) :
    after.registry parse = state.registry parse := by
  have kept := move.frame.toForwardKept
  have shows : (∀ ref, after.shown parse ref = state.shown parse ref) →
      after.registry parse = state.registry parse := fun shown =>
    registry_eq shown kept.links (kept.applied ▸ reports_kept reachable moves)
      (congrArg ForwardPc.closed kept.forward)
  cases move with
  | accepted place free => cases quiet
  | registered place items | announced place items =>
      refine shows fun ref => ?_
      simp only [ServerState.shown, ServerState.inbox, items, ← List.append_assoc,
        framesOf_append _ (_ ++ _), framesOf_silent, List.append_nil]
      rfl
  | _ => exact shows fun _ => rfl

/-- What the registry makes of a message that the forward loop has handled. -/
structure Turned (parse : HttpParser) (state after : ServerState) (message : Message) : Prop where
  channel : after.channel = state.channel
  current : state.forward.current = [message]
  free : after.forward.current = []
  consumed : after.consumed = state.consumed
  running : state.forward.closed = false
  moves : LinksMove parse state after
  seen : ∀ ref, (after.link ref).map (fun link => (link.token, link.unread parse)) =
    (state.link ref).map fun link => (link.token, link.unread parse)

/-- Handling a message moves no read loop. -/
theorem turned_of_handled {message : Message} (pc : state.forward = .handling message)
    (move : HandleMove state message.body after) : Turned parse state after message where
  channel := move.frame.channel
  current := by rw [pc, ForwardPc.current]
  free := move.free
  consumed := move.frame.consumed
  running := by
    rw [pc]
    rfl
  moves := move.links parse
  seen := by
    intro ref
    cases move with
    | @sent token mover link next pc looked listed found sends =>
        obtain ⟨notice, sends⟩ := sends
        obtain ⟨alive, outgoing, queued, rfl⟩ := send_ok sends
        have there : (state.setLink mover { link with outgoing }).link ref =
            if ref = mover then some { link with outgoing } else state.link ref :=
          link_set (link_lt found)
        have same : ServerState.link
            { state.setLink mover { link with outgoing } with forward := pc } ref =
              (state.setLink mover { link with outgoing }).link ref := rfl
        rw [same, there]
        by_cases own : ref = mover
        · subst own
          rw [if_pos rfl, found]
          rfl
        · rw [if_neg own]
    | _ => rfl

/-- The forward loop handles the message that it received. -/
theorem turned_handle (parse : HttpParser) {message : Message}
    (pc : state.forward = .handling message) :
    Turned parse state (state.handle message.body) message :=
  turned_of_handled pc (handle_move state message.body)

section Turned

variable {message : Message} (turned : Turned parse state after message)

include turned

/-- The message is the next that the forward loop is done with. -/
theorem Turned.done (reachable : (serverMachine parse).Reachable state) :
    message ∈ state.history ∧ after.applied = state.applied ++ [message] := by
  obtain ⟨start, trace, rfl, run⟩ := reachable
  obtain ⟨earlier, applied⟩ := (tokenInv_of_run run).applied
  have consumed := applied.consumed
  rw [turned.current] at consumed
  have before : state.applied = earlier := by
    simp [ServerState.applied, turned.current, consumed]
  refine ⟨by simp [ServerState.history, consumed], ?_⟩
  rw [before, ServerState.applied, turned.free, turned.consumed, consumed, List.length_nil,
    Nat.sub_zero, List.take_length]

/-- A turn adds the report of its message to those of the applied ones. -/
theorem Turned.applied (reachable : (serverMachine parse).Reachable state) :
    after.applied.filterMap after.report =
      state.applied.filterMap state.report ++ (state.report message).toList := by
  obtain ⟨member, whole⟩ := turned.done reachable
  rw [whole, List.filterMap_append, reports_kept reachable turned.moves]
  have same := report_kept turned.moves (proper_of_reachable reachable message member)
  cases report : state.report message <;> simp [same, report]

/-- The frames of the message leave the inbox of its sender. -/
theorem Turned.shown (ref : LinkRef) : state.shown parse ref =
    (after.shown parse ref).map fun peer =>
      ⟨peer.token, framesOf ref [message] ++ peer.inbox⟩ := by
  have seen := turned.seen ref
  simp only [ServerState.shown, Option.map_map]
  cases found : state.link ref with
  | none =>
      rw [found, Option.map_none, Option.map_eq_none_iff] at seen
      rw [seen]
      rfl
  | some link =>
      rw [found, Option.map_some, Option.map_eq_some_iff] at seen
      obtain ⟨next, there, same⟩ := seen
      obtain ⟨token, unread⟩ := Prod.mk.inj same
      simp only [there, Option.map_some, Function.comp, ServerState.inbox, turned.current,
        turned.free, turned.channel, token, unread, List.nil_append, framesOf_append,
        List.append_assoc]

/-- A message that carries no frame is not looked for in an inbox. -/
theorem Turned.unseen (silent : ∀ ref, framesOf ref [message] = []) (ref : LinkRef) :
    after.shown parse ref = state.shown parse ref := by
  rw [turned.shown, silent]
  exact Option.map_id'.symm

/-- The registry after a message was handled. -/
theorem Turned.registry (reachable : (serverMachine parse).Reachable state) :
    after.registry parse =
      { peers := (after.registry parse).peers, table := after.links,
        told := (state.registry parse).told ++ (state.report message).toList,
        closed := after.forward.closed } :=
  congrArg (fun told => Registry.mk _ _ told _) (turned.applied reachable)

/-- A message that carries no frame leaves all inboxes alone. -/
theorem Turned.peers (silent : ∀ ref, framesOf ref [message] = []) :
    (after.registry parse).peers = (state.registry parse).peers :=
  peers_ext fun ref => by rw [registry_peers, registry_peers, turned.unseen silent]

/-- The frame of the message is the oldest in the inbox of its sender. -/
theorem Turned.front {ref : LinkRef} {frame : Frame} (carried : framesOf ref [message] = [frame])
    (known : ref.index < state.created.length) : ∃ peer, after.shown parse ref = some peer ∧
      peer.token = state.tokenOf ref ∧
        (state.registry parse).peer ref = some ⟨peer.token, frame :: peer.inbox⟩ := by
  obtain ⟨link, found⟩ := link_of_lt known
  have there : state.shown parse ref = some ⟨link.token, state.inbox parse ref link⟩ := by
    rw [ServerState.shown, found, Option.map_some]
  have front := turned.shown ref
  rw [there, carried] at front
  obtain ⟨peer, shown, same⟩ := Option.map_eq_some_iff.mp front.symm
  obtain ⟨token, inbox⟩ := Peer.mk.inj same
  refine ⟨peer, shown, token.trans (link_token found).symm, ?_⟩
  rw [registry_peer, there, ← same]
  rfl

/-- Only the inbox of the sender is another. -/
theorem Turned.peers_front {ref : LinkRef} {peer : Peer}
    (silent : ∀ other, other ≠ ref → framesOf other [message] = [])
    (known : ref.index < (state.registry parse).peers.length)
    (shown : after.shown parse ref = some peer) :
    (after.registry parse).peers = (state.registry parse).peers.set ref.index peer := by
  refine peers_ext fun other => ?_
  rw [peer_set known, registry_peers, registry_peers]
  by_cases own : other = ref
  · rw [if_pos own, own, shown]
  · rw [if_neg own, turned.shown other, silent other own]
    exact Option.map_id'.symm

end Turned

/-- A send leaves the table alone. -/
theorem sendUnwrap_links (state : ServerState) (token : Token) (tr : Transaction)
    (next : ForwardPc) : (state.sendUnwrap token tr next).links = state.links := by
  unfold ServerState.sendUnwrap
  split
  next sent sends => exact (sendTo_kept sends).links
  next => rfl

/-- Only the exit of the accept loop ends the loop. -/
theorem handleFrame_kept (state : ServerState) (frame : Frame) (token : Option Token) :
    (state.handleFrame frame token).links = state.links ∧
      (state.handleFrame frame token).forward.closed = false := by
  cases frame with
  | settings settings =>
      simp only [ServerState.handleFrame]
      split
      · exact ⟨rfl, rfl⟩
      · refine ⟨sendUnwrap_links _ _ _ _, ?_⟩
        rw [sendUnwrap_forward]
        split <;> rfl
  | _ => exact ⟨rfl, rfl⟩

/-- A message that detaches finds its own link in the table, or none. -/
theorem detaches_own (reachable : (serverMachine parse).Reachable state) {flags : LinkFlags}
    {ref : LinkRef}
    (pc : state.forward = .handling ⟨.linkChanged flags (state.tokenOf ref), some ref⟩) :
    state.links (state.tokenOf ref) = none ∨ state.links (state.tokenOf ref) = some ref := by
  obtain ⟨start, trace, rfl, run⟩ := reachable
  have inv := tokenInv_of_run run
  obtain ⟨earlier, applied⟩ := inv.applied
  have consumed := applied.consumed
  rw [pc, ForwardPc.current] at consumed
  obtain ⟨sender, same, named, own⟩ := reaches_sender inv consumed rfl
    fun other there => (applied.listed (state.tokenOf ref) other there).2
  cases same
  exact own

section Handled

variable {ref : LinkRef} (reachable : (serverMachine parse).Reachable state)
  (known : ref.index < state.created.length)

include reachable known

/-- A frame that the forward loop handles is the oldest in the inbox of its link. -/
theorem registry_of_frame {carried : Frame}
    (pc : state.forward = .handling ⟨.frame carried (some (state.tokenOf ref)), some ref⟩) :
    registryMachine.step (state.registry parse) (.look ref) =
      some ((state.handle (.frame carried (some (state.tokenOf ref)))).registry parse) := by
  have turned := turned_handle parse pc
  obtain ⟨links, closed⟩ := handleFrame_kept state carried (some (state.tokenOf ref))
  generalize same : state.handle (.frame carried (some (state.tokenOf ref))) = after at *
  have links : after.links = state.links := same ▸ links
  have closed : after.forward.closed = false := same ▸ closed
  have oldest : framesOf ref
      [(⟨.frame carried (some (state.tokenOf ref)), some ref⟩ : Message)] = [carried] := by
    simp [framesOf, Transaction.carried]
  obtain ⟨peer, shown, token, there⟩ := turned.front oldest known
  have peers := turned.peers_front (fun other own => by simp [framesOf, Ne.symm own])
    (peer_lt there) shown
  have looks : registryMachine.step (state.registry parse) (.look ref) =
      (state.registry parse).look ref ⟨peer.token, carried :: peer.inbox⟩ := by
    have running : (state.registry parse).closed = false := turned.running
    simp only [registryMachine, Registry.step, running, Bool.false_eq_true, if_false, there,
      Option.bind_some]
  have looked : (state.registry parse).look ref ⟨peer.token, carried :: peer.inbox⟩ =
      some (if carried.isContent then
        Registry.tell { state.registry parse with peers := (after.registry parse).peers }
          (some ref) (.frame carried (some (state.tokenOf ref)))
      else { state.registry parse with peers := (after.registry parse).peers }) := by
    rw [peers, ← token]
    rfl
  rw [looks, looked]
  rw [turned.registry reachable, links, closed, ServerState.report]
  have running : state.forward.closed = false := turned.running
  cases content : carried.isContent <;>
    simp [ServerState.registry, Registry.tell, running, Message.subject, content]

omit reachable in

/-- A link that exists is a peer of the registry, under its own token. -/
theorem shown_of_known (parse : HttpParser) : ∃ peer, (state.registry parse).peer ref = some peer ∧
    peer.token = state.tokenOf ref := by
  obtain ⟨link, found⟩ := link_of_lt known
  exact ⟨⟨link.token, state.inbox parse ref link⟩, by rw [registry_peer, ServerState.shown, found,
    Option.map_some], (link_token found).symm⟩

/-- Flags of a link detach it, or are not seen. -/
theorem registry_of_changed {flags : LinkFlags}
    (pc : state.forward = .handling ⟨.linkChanged flags (state.tokenOf ref), some ref⟩) :
    registryMachine.attempt (state.registry parse)
      (Message.event ⟨.linkChanged flags (state.tokenOf ref), some ref⟩) =
        some ((state.handle (.linkChanged flags (state.tokenOf ref))).registry parse) := by
  have turned := turned_handle parse pc
  have silent : ∀ other, framesOf other
      [(⟨.linkChanged flags (state.tokenOf ref), some ref⟩ : Message)] = [] := by
    simp [framesOf, Transaction.carried]
  have running : state.forward.closed = false := turned.running
  rw [turned.registry reachable, turned.peers silent]
  simp only [Message.event, ServerState.report, ServerState.handle, ServerState.handleLinkChanged]
  cases arm : linkChangedArm flags with
  | notify =>
      cases sends : state.sendTo (state.tokenOf ref) (.linkChanged flags (state.tokenOf ref)) with
      | ok sent => simp [Machine.attempt, ServerState.registry, running, (sendTo_kept sends).links]
      | error error => simp [Machine.attempt, ServerState.registry, running]
  | ignore => simp [Machine.attempt, ServerState.registry, running]
  | detach =>
      obtain ⟨peer, there, token⟩ := shown_of_known known parse
      have own : (state.registry parse).table peer.token = none ∨
          (state.registry parse).table peer.token = some ref := by
        rw [token]
        exact detaches_own reachable pc
      have detaches : registryMachine.step (state.registry parse) (.detach ref) =
          (state.registry parse).detach ref peer := by
        have open' : (state.registry parse).closed = false := running
        simp only [registryMachine, Registry.step, open', Bool.false_eq_true, if_false, there,
          Option.bind_some]
      simp only [if_true, Machine.attempt]
      rw [detaches, Registry.detach, if_pos own, token]
      exact congrArg (fun closed => some (Registry.mk _ _ _ closed)) running

/-- A registration attaches its link. -/
theorem registry_of_registration {sender : Option LinkRef}
    (pc : state.forward = .handling ⟨.newLink ref, sender⟩) :
    registryMachine.step (state.registry parse) (.attach ref) =
      some ((state.handle (.newLink ref)).registry parse) := by
  have turned := turned_handle parse pc
  have silent : ∀ other, framesOf other [(⟨.newLink ref, sender⟩ : Message)] = [] := by
    simp [framesOf, Transaction.carried]
  have running : (state.registry parse).closed = false := turned.running
  obtain ⟨peer, there, token⟩ := shown_of_known known parse
  obtain ⟨start, trace, rfl, run⟩ := reachable
  have inv := tokenInv_of_run run
  obtain ⟨earlier, applied⟩ := inv.applied
  have free : (state.registry parse).table peer.token = none := by
    rw [token]
    exact registers_free inv applied pc rfl
  rw [turned.registry ⟨_, trace, rfl, run⟩, turned.peers silent]
  simp only [registryMachine, Registry.step, running, Bool.false_eq_true, if_false, there,
    Option.bind_some, Registry.attach, free, if_true]
  rw [token]
  exact congrArg (fun closed => some (Registry.mk _ _ _ closed)) running

end Handled

/-- The exit of the accept loop closes the registry. -/
theorem registry_of_exit (reachable : (serverMachine parse).Reachable state)
    (pc : state.forward = .handling ⟨.serverChanged .acceptLoopExited, none⟩) :
    registryMachine.step (state.registry parse) .close =
      some ((state.handle (.serverChanged .acceptLoopExited)).registry parse) := by
  have turned := turned_handle parse pc
  have silent : ∀ other, framesOf other
      [(⟨.serverChanged .acceptLoopExited, none⟩ : Message)] = [] := by
    simp [framesOf, Transaction.carried]
  have running : (state.registry parse).closed = false := turned.running
  rw [turned.registry reachable, turned.peers silent]
  simp only [registryMachine, Registry.step, running, Bool.false_eq_true, if_false]
  rfl

/-- Every message that the forward loop handles is an event, or is not seen. -/
theorem registry_of_handled (reachable : (serverMachine parse).Reachable state) {message : Message}
    (pc : state.forward = .handling message) :
    registryMachine.attempt (state.registry parse) message.event =
      some ((state.handle message.body).registry parse) := by
  have member : message ∈ state.history := by
    obtain ⟨start, trace, rfl, run⟩ := reachable
    refine mem_history_of_waiting (tokenInv_of_run run) (List.mem_append_left _ ?_)
    rw [pc, ForwardPc.current]
    exact List.mem_singleton_self message
  cases proper_of_reachable reachable message member with
  | frame known => exact registry_of_frame reachable known pc
  | changed known => exact registry_of_changed reachable known pc
  | registers known => exact registry_of_registration reachable known pc
  | exits => exact registry_of_exit reachable pc

/-- The acknowledgement of a SETTINGS frame, and its failure, are not seen. -/
theorem registry_of_acknowledged (reachable : (serverMachine parse).Reachable state)
    {token : Option Token} (pc : state.forward = .acknowledging token) :
    (state.sendUnwrap (token.getD ⟨0⟩) (.frame (.settings Settings.ack) token)
      .receiving).registry parse = state.registry parse := by
  have idle : state.applied = state.consumed := by simp [ServerState.applied, pc, ForwardPc.current]
  have shows : ∀ {sent : ServerState} {place : ForwardPc}, ForwardKept state sent →
      sent.channel = state.channel → LinksMove parse state { sent with forward := place } →
      (∀ ref, sent.shown parse ref = state.shown parse ref) → place.current = [] →
      place.closed = false →
      ServerState.registry parse { sent with forward := place } = state.registry parse := by
    intro sent place kept channel moves shown free open'
    have current : state.forward.current = [] := by rw [pc]; rfl
    refine registry_eq (fun ref => ?_) kept.links ?_ ?_
    · rw [← shown ref]
      simp only [ServerState.shown, ServerState.inbox, kept.forward, current, free]
      rfl
    · have same : ServerState.applied { sent with forward := place } = state.applied := by
        simp [ServerState.applied, kept.consumed, current, free]
      rw [same]
      exact reports_kept reachable moves
    · rw [pc]
      exact open'
  unfold ServerState.sendUnwrap
  split
  next sent sends =>
    have kept := sendTo_kept sends
    obtain ⟨ref, link, next, listed, found, queues, rfl⟩ := sendTo_ok sends
    exact shows kept rfl (.moved found (move_of_send queues) rfl) (shown_of_send found queues)
      rfl rfl
  next =>
    exact shows ⟨rfl, rfl, rfl⟩ rfl (.kept rfl) (fun _ => rfl) rfl rfl

/-- A step of the forward loop is the event of the message that it handles. -/
theorem registry_of_forward (reachable : (serverMachine parse).Reachable state)
    (taken : (serverMachine parse).step state .forward = some after) :
    registryMachine.attempt (state.registry parse) (state.event parse .forward) =
      some (after.registry parse) := by
  have moves := linksMove_of_move (step_move taken)
  have quiet : state.forward.current = [] → after.registry parse = state.registry parse →
      registryMachine.attempt (state.registry parse) (state.event parse .forward) =
        some (after.registry parse) := by
    intro current same
    rw [ServerState.event, current, same]
    rfl
  cases forward_move taken with
  | @received message channel pc receives =>
      have current : state.forward.current = [] := by rw [pc]; rfl
      refine quiet current (registry_eq (fun ref => ?_) rfl ?_ ?_)
      · simp only [ServerState.shown, ServerState.inbox, current, Channel.recv_items receives]
        rfl
      · have same : ServerState.applied { state with
            channel, forward := .handling message, consumed := state.consumed ++ [message] } =
              state.applied := by
          have now : (ForwardPc.handling message).current = [message] := rfl
          simp [ServerState.applied, current, now]
        rw [same]
        exact reports_kept reachable moves
      · rw [pc]
        rfl
  | @handled message pc =>
      have event : state.event parse .forward = message.event := by
        rw [ServerState.event, pc]
        rfl
      rw [event]
      exact registry_of_handled reachable pc
  | acknowledged pc => exact quiet (by rw [pc]; rfl) (registry_of_acknowledged reachable pc)
  | @called tr last pc =>
      have current : state.forward.current = [] := by rw [pc]; rfl
      have free : ForwardPc.current (if last then .exited else .receiving) = [] := by
        cases last <;> rfl
      refine quiet current (registry_eq (fun ref => ?_) rfl ?_ ?_)
      · simp only [ServerState.shown, ServerState.inbox, current, free]
        rfl
      · simp only [ServerState.applied, current, free]
        rfl
      · rw [pc]
        cases last <;> rfl

/-- Every step of a server is seen as an event of its registry, or is not seen. -/
theorem registry_of_step (reachable : (serverMachine parse).Reachable state) {label : ServerLabel}
    (taken : (serverMachine parse).step state label = some after) :
    registryMachine.attempt (state.registry parse) (state.event parse label) =
      some (after.registry parse) := by
  have moves := linksMove_of_move (step_move taken)
  have quiet : state.event parse label = none → after.registry parse = state.registry parse →
      registryMachine.attempt (state.registry parse) (state.event parse label) =
        some (after.registry parse) := by
    intro none same
    rw [none, same]
    rfl
  cases label with
  | forward => exact registry_of_forward reachable taken
  | read ref | write ref written =>
      exact quiet rfl (registry_of_loop reachable rfl taken)
  | connect token stream =>
      have steps := taken
      simp only [serverMachine, ServerState.step, ServerState.acceptStep, ServerState.userStep,
        Option.or_none] at steps
      split at steps <;> cases steps
      next place => exact registry_of_connect reachable place.2 rfl
  | _ =>
      have known := taken
      simp only [serverMachine, ServerState.step, Option.or_eq_some_iff] at known
      rcases known with steps | ⟨-, steps⟩
      · exact quiet rfl (registry_of_acceptor reachable moves (acceptMove_of_step steps) rfl)
      · exact quiet rfl (registry_of_user reachable moves (userMove_of_step steps))

/-- A server, seen as a registry. -/
def serverRefinement (parse : HttpParser) :
    Machine.Refinement (serverMachine parse) registryMachine where
  view := ServerState.registry parse
  event := ServerState.event parse
  initial := by
    rintro _ rfl
    rfl
  step reachable taken := registry_of_step reachable taken

end H2l
