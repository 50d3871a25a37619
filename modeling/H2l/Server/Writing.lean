import H2l.Base.Ledger
import H2l.Server.Forward
import H2l.Server.Order
import H2l.Server.Tokens
import H2l.Server.Turns

/-!
# What a link's write loop writes

A link accepts transactions from user code and from the forward loop. What its write loop
hands to the socket is what the link accepted, in the order in which it was accepted, up to
the moment when the loop leaves.
-/

namespace H2l

open Base

/-- What the write loop has in hand. -/
def LinkState.hand (link : LinkState) : List Transaction :=
  match link.writer with
  | .writing tr => [tr]
  | _ => []

/-- The bytes that a link has yet to hand to its socket. -/
def LinkState.unwritten (link : LinkState) : List Byte :=
  (link.hand ++ link.outgoing.items).flatMap Transaction.emitted

/-- What the forward loop sends to a link when it handles a transaction, and under which token. -/
def Transaction.notice : Transaction → Option (Token × Transaction)
  | .frame (.settings settings) token =>
      if settings.isAck then none else some (token.getD ⟨0⟩, .frame (.settings settings) token)
  | .linkChanged flags token =>
      if linkChangedArm flags = .notify then some (token, .linkChanged flags token) else none
  | _ => none

namespace ServerState

/-- The bytes that the link behind a reference has yet to hand to its socket. -/
def unwritten (state : ServerState) (ref : LinkRef) : List Byte :=
  ((state.link ref).map LinkState.unwritten).getD []

/-- What the forward loop is about to send, and under which token. -/
def noticing (state : ServerState) : Option (Token × Transaction) :=
  match state.forward with
  | .handling message => message.body.notice
  | .acknowledging token => some (token.getD ⟨0⟩, .frame (.settings Settings.ack) token)
  | _ => none

/-- What a step sends to a link. -/
def sends (state : ServerState) : ServerLabel → Option (LinkRef × Transaction)
  | .forward => state.noticing.bind fun (token, tr) => (state.links token).map fun ref => (ref, tr)
  | .send ref tr => if ref ∈ state.held then some (ref, tr) else none
  | .sendTo token tr => (state.links token).map fun ref => (ref, tr)
  | _ => none

/-- `Link::send` returns `Ok`. -/
def takes (state : ServerState) (ref : LinkRef) (tr : Transaction) : Bool :=
  (state.link ref).any fun link => (link.send tr).isOk

/-- The state after a send to a link; a send that fails changes nothing. -/
def push (state : ServerState) (ref : LinkRef) (tr : Transaction) : ServerState :=
  match state.link ref with
  | some link =>
      match link.send tr with
      | .ok next => state.setLink ref next
      | .error _ => state
  | none => state

/-- A send to the link that stands under a token. -/
def pushTo (state : ServerState) (token : Token) (tr : Transaction) : ServerState :=
  match state.links token with
  | some ref => state.push ref tr
  | none => state

end ServerState

/-- What a link accepts in a step. -/
def acceptedBy (ref : LinkRef) : ServerState × ServerLabel → List Transaction
  | (state, label) =>
      match state.sends label with
      | some (target, tr) => if target = ref ∧ state.takes ref tr then [tr] else []
      | none => []

/-- The bytes that a link hands to its socket in a step, whether they all arrive or not. -/
def handedBy (ref : LinkRef) : ServerState × ServerLabel → List Byte
  | (state, .write target _) =>
      if target = ref then
        (((state.link ref).map LinkState.hand).getD []).flatMap Transaction.emitted
      else []
  | _ => []

variable {parse : HttpParser} {state after : ServerState}

theorem unwritten_congr (created : after.created = state.created) (ref : LinkRef) :
    after.unwritten ref = state.unwritten ref := by
  simp only [ServerState.unwritten, ServerState.link, created]

theorem unwritten_of_link {ref : LinkRef} {link : LinkState} (found : state.link ref = some link) :
    state.unwritten ref = link.unwritten := by
  simp [ServerState.unwritten, found]

/-- A send to a link is written after everything that waits there. -/
theorem unwritten_of_send {link next : LinkState} {tr : Transaction}
    (sends : link.send tr = .ok next) : next.unwritten = link.unwritten ++ tr.emitted := by
  obtain ⟨alive, outgoing, queued, rfl⟩ := send_ok sends
  have hand : LinkState.hand { link with outgoing } = link.hand := rfl
  simp [LinkState.unwritten, hand, Channel.trySend_items queued]

theorem unwritten_set {ref other : LinkRef} {link next : LinkState}
    (found : state.link ref = some link) :
    (state.setLink ref next).unwritten other =
      if other = ref then next.unwritten else state.unwritten other := by
  have there : (state.setLink ref next).link other =
      if other = ref then some next else state.link other := link_set (link_lt found)
  rw [ServerState.unwritten, there, ServerState.unwritten]
  split <;> rfl

/-- A send adds its bytes to what its link has yet to write, if the link takes it. -/
theorem unwritten_push (state : ServerState) (target ref : LinkRef) (tr : Transaction) :
    (state.push target tr).unwritten ref = state.unwritten ref ++
      if target = ref ∧ state.takes ref tr then tr.emitted else [] := by
  unfold ServerState.push
  cases found : state.link target with
  | none =>
      have refused : ¬ (target = ref ∧ state.takes ref tr) := by
        rintro ⟨rfl, takes⟩
        simp [ServerState.takes, found] at takes
      rw [if_neg refused, List.append_nil]
  | some link =>
      cases sends : link.send tr with
      | error error =>
          have refused : ¬ (target = ref ∧ state.takes ref tr) := by
            rintro ⟨rfl, takes⟩
            simp [ServerState.takes, found, sends, Except.isOk, Except.toBool] at takes
          simp only [sends, if_neg refused, List.append_nil]
      | ok next =>
          simp only [sends, unwritten_set found]
          by_cases same : ref = target
          · subst same
            have taken : state.takes ref tr := by
              simp [ServerState.takes, found, sends, Except.isOk, Except.toBool]
            rw [if_pos rfl, if_pos ⟨rfl, taken⟩, unwritten_of_link found, unwritten_of_send sends]
          · rw [if_neg same, if_neg fun both => same both.1.symm, List.append_nil]

/-- `send_to` pushes to the link that stands under the token. -/
theorem pushTo_of_sendTo {token : Token} {tr : Transaction}
    (sends : state.sendTo token tr = .ok after) : state.pushTo token tr = after := by
  obtain ⟨ref, link, next, listed, found, queues, rfl⟩ := sendTo_ok sends
  simp only [ServerState.pushTo, listed, ServerState.push, found, queues]

theorem pushTo_of_error {token : Token} {tr : Transaction} {error : SendError}
    (fails : state.sendTo token tr = .error error) : state.pushTo token tr = state := by
  unfold ServerState.sendTo ServerState.findLink at fails
  unfold ServerState.pushTo ServerState.push
  cases listed : state.links token with
  | none => rfl
  | some ref =>
      cases found : state.link ref with
      | none => simp only [found]
      | some link =>
          cases sends : link.send tr with
          | error error => simp only [found, sends]
          | ok next => simp [listed, found, sends] at fails

theorem created_of_sendUnwrap (state : ServerState) (token : Token) (tr : Transaction)
    (next : ForwardPc) :
    (state.sendUnwrap token tr next).created = (state.pushTo token tr).created := by
  unfold ServerState.sendUnwrap
  split
  next sent sends => rw [pushTo_of_sendTo sends]
  next error fails => rw [pushTo_of_error fails]

/-- A step of a read loop writes nothing. -/
theorem unwritten_of_read {link next : LinkState} {sent : Option Transaction}
    (turn : ReadTurn parse link next sent) : next.unwritten = link.unwritten := by
  cases turn <;> rfl

/-- What a write loop receives is in its hand, if it is to be written. -/
theorem hand_received (link : LinkState) (tr : Transaction) :
    (LinkState.hand { link with writer := .received tr }).flatMap Transaction.emitted =
      tr.emitted := by
  cases tr with
  | linkChanged flags token =>
      simp only [LinkState.hand, WriterPc.received]
      by_cases closed : FlagSet.contains flags LinkFlags.readClosed = true
      · rw [if_pos closed]
        rfl
      · rw [if_neg closed]
        rfl
  | bytes data token => exact List.append_nil data
  | frame carried token => exact List.append_nil carried.writeTo
  | _ => rfl

/-- A step of a write loop hands over what it has in hand. -/
theorem unwritten_of_write {link next : LinkState} {written : Bool} {sent : Option Transaction}
    (turn : WriteTurn link written next sent) :
    link.unwritten = link.hand.flatMap Transaction.emitted ++ next.unwritten := by
  cases turn with
  | @received tr outgoing pc receives =>
      have hand := hand_received { link with outgoing } tr
      simp only [LinkState.unwritten, List.flatMap_append]
      rw [hand, Channel.recv_items receives]
      simp [LinkState.hand, pc]
  | wrote pc | failed pc => simp [LinkState.unwritten, LinkState.hand, pc]
  | exits place => simp [LinkState.unwritten, LinkState.hand, place]

/-- What the forward loop does to the links is a send, if it is anything. -/
theorem created_of_handle (state : ServerState) (body : Transaction) :
    (state.handle body).created = match body.notice with
      | some (token, tr) => (state.pushTo token tr).created
      | none => state.created := by
  cases body with
  | frame carried token =>
      cases carried with
      | settings settings =>
          simp only [ServerState.handle, ServerState.handleFrame, Transaction.notice]
          by_cases ack : settings.isAck
          · rw [if_pos ack, if_pos ack]
          · rw [if_neg ack, if_neg ack]
            exact created_of_sendUnwrap _ _ _ _
      | _ => rfl
  | linkChanged flags token =>
      simp only [ServerState.handle, ServerState.handleLinkChanged, Transaction.notice]
      cases arm : linkChangedArm flags with
      | notify =>
          rw [if_pos rfl]
          cases sends : state.sendTo token (.linkChanged flags token) with
          | ok sent => simp [pushTo_of_sendTo sends]
          | error error => simp [pushTo_of_error sends]
      | detach | ignore => rfl
  | serverChanged flags =>
      simp only [ServerState.handle]
      split <;> rfl
  | _ => rfl

/-- The links once a send was made, if there was one to make. -/
def ServerState.pushed (state : ServerState) : Option (LinkRef × Transaction) → List LinkState
  | some (ref, tr) => (state.push ref tr).created
  | none => state.created

theorem pushed_of_token (state : ServerState) (token : Token) (tr : Transaction) :
    state.pushed ((state.links token).map fun ref => (ref, tr)) =
      (state.pushTo token tr).created := by
  unfold ServerState.pushTo
  cases state.links token <;> rfl

theorem pushed_of_forward (taken : (serverMachine parse).step state .forward = some after) :
    after.created = state.pushed (state.sends .forward) := by
  have notices : ∀ {token tr}, state.noticing = some (token, tr) →
      state.pushed (state.sends .forward) = (state.pushTo token tr).created := by
    intro token tr noticing
    rw [ServerState.sends, noticing]
    exact pushed_of_token state token tr
  cases forward_move taken with
  | received pc | called pc =>
      simp [ServerState.sends, ServerState.noticing, pc, ServerState.pushed]
  | @handled message pc =>
      have noticing : state.noticing = message.body.notice := by rw [ServerState.noticing, pc]
      rw [created_of_handle]
      cases notice : message.body.notice with
      | none => simp [ServerState.sends, noticing, notice, ServerState.pushed]
      | some sent => exact (notices (noticing.trans notice)).symm
  | acknowledged pc =>
      rw [created_of_sendUnwrap, notices (by rw [ServerState.noticing, pc])]

/-- A step that is not of a link's loop, and that accepts no connection, sends to one link at
most. -/
theorem pushed_of_step {label : ServerLabel} (idle : label.loopOf = none)
    (joins : ∀ token stream, label ≠ .connect token stream)
    (taken : (serverMachine parse).step state label = some after) :
    after.created = state.pushed (state.sends label) := by
  cases label with
  | forward => exact pushed_of_forward taken
  | read ref | write ref written => cases idle
  | connect token stream => exact absurd rfl (joins token stream)
  | send ref tr =>
      simp only [serverMachine, ServerState.step, ServerState.acceptStep, ServerState.userStep,
        Option.none_or] at taken
      split at taken
      next held =>
        obtain ⟨link, found, rfl⟩ := Option.map_eq_some_iff.mp taken
        cases sends : link.send tr with
        | error error =>
            simp [ServerState.sends, held, ServerState.pushed, ServerState.push, found, sends]
        | ok next =>
            simp [ServerState.sends, held, ServerState.pushed, ServerState.push, found, sends]
      next => cases taken
  | sendTo token tr =>
      simp only [serverMachine, ServerState.step, ServerState.acceptStep, ServerState.userStep,
        Option.none_or] at taken
      rw [ServerState.sends, pushed_of_token]
      split at taken
      next sent sends =>
        cases taken
        rw [pushTo_of_sendTo sends]
      next error fails =>
        cases taken
        rw [pushTo_of_error fails]
  | shutdown =>
      cases taken
      rfl
  | find token =>
      simp only [serverMachine, ServerState.step, ServerState.acceptStep, ServerState.userStep,
        Option.none_or] at taken
      obtain ⟨found, -, rfl⟩ := Option.map_eq_some_iff.mp taken
      rfl
  | drop ref =>
      simp only [serverMachine, ServerState.step, ServerState.acceptStep, ServerState.userStep,
        Option.none_or] at taken
      split at taken <;> cases taken
      rfl
  | _ =>
      simp only [serverMachine, ServerState.step, ServerState.userStep, Option.or_none] at taken
      cases acceptMove_of_step taken <;> rfl

/-- A new link has nothing to write. -/
theorem unwritten_of_connect {token : Token} {stream : TcpStream}
    (created : after.created = state.created ++ [.new token stream]) (ref : LinkRef) :
    after.unwritten ref = state.unwritten ref := by
  simp only [ServerState.unwritten, ServerState.link, created]
  by_cases old : ref.index < state.created.length
  · rw [List.getElem?_append_left old]
  · have none : state.created[ref.index]? = none := List.getElem?_eq_none (Nat.not_lt.mp old)
    rw [List.getElem?_append_right (Nat.not_lt.mp old), none]
    cases ref.index - state.created.length <;> rfl

/-- A link's loop moves only its own link. -/
theorem unwritten_of_loop {mover : LinkRef} {link next : LinkState} {bytes : List Byte}
    (found : state.link mover = some link) (turns : link.unwritten = bytes ++ next.unwritten)
    (created : after.created = state.created.set mover.index next) (ref : LinkRef) :
    state.unwritten ref = (if mover = ref then bytes else []) ++ after.unwritten ref := by
  have same : after.unwritten ref = (state.setLink mover next).unwritten ref :=
    unwritten_congr created ref
  rw [same, unwritten_set found]
  by_cases same : ref = mover
  · subst same
    rw [if_pos rfl, if_pos rfl, unwritten_of_link found, turns]
  · rw [if_neg same, if_neg (Ne.symm same), List.nil_append]

/-- In every step a link hands over the front of what it has to write, and what it accepts comes
last. -/
theorem unwritten_of_step (ref : LinkRef) {label : ServerLabel}
    (taken : (serverMachine parse).step state label = some after) :
    state.unwritten ref ++ (acceptedBy ref (state, label)).flatMap Transaction.emitted =
      handedBy ref (state, label) ++ after.unwritten ref := by
  have sent : handedBy ref (state, label) = [] → after.created = state.pushed (state.sends label) →
      state.unwritten ref ++ (acceptedBy ref (state, label)).flatMap Transaction.emitted =
        handedBy ref (state, label) ++ after.unwritten ref := by
    intro silent created
    rw [silent, List.nil_append, acceptedBy]
    cases sends : state.sends label with
    | none =>
        rw [sends] at created
        rw [unwritten_congr created]
        exact List.append_nil _
    | some send =>
        obtain ⟨target, tr⟩ := send
        rw [sends] at created
        have same : after.unwritten ref = (state.push target tr).unwritten ref :=
          unwritten_congr created ref
        rw [same, unwritten_push]
        by_cases takes : target = ref ∧ state.takes ref tr <;> simp [takes]
  cases label with
  | read mover =>
      obtain ⟨link, next, sent, found, turn, created⟩ := read_turn taken
      have kept : link.unwritten = [] ++ next.unwritten := (unwritten_of_read turn).symm
      simpa [acceptedBy, ServerState.sends, handedBy] using unwritten_of_loop found kept created ref
  | write mover written =>
      obtain ⟨link, next, sent, found, turn, created⟩ := write_turn taken
      have hands := unwritten_of_loop found (unwritten_of_write turn) created ref
      simp only [acceptedBy, ServerState.sends, List.flatMap_nil, List.append_nil, handedBy]
      rw [hands]
      by_cases same : mover = ref
      · subst same
        simp [found]
      · simp [same]
  | connect token stream =>
      have steps := taken
      simp only [serverMachine, ServerState.step, ServerState.acceptStep, ServerState.userStep,
        Option.or_none] at steps
      split at steps <;> cases steps
      exact (List.append_nil _).trans (unwritten_of_connect rfl ref).symm
  | _ => exact sent rfl (pushed_of_step rfl (by simp) taken)

/-- What a link has to write is a queue that it takes from in order. -/
theorem writing_ledger (parse : HttpParser) (ref : LinkRef) :
    (serverMachine parse).Ledger (fun state => state.unwritten ref)
      (fun step => (acceptedBy ref step).flatMap Transaction.emitted) (handedBy ref) where
  balanced _ taken := unwritten_of_step ref taken

/-- The write loop of a link has left its receive loop. -/
def ServerState.writerLeft (state : ServerState) (ref : LinkRef) : Prop :=
  ∃ link, state.link ref = some link ∧ link.writer.left

/-- A link's write loop has left, or leaves in this step because a write fails. -/
def leavesWriting (ref : LinkRef) (step : ServerState × ServerLabel) : Prop :=
  step.1.writerLeft ref ∨ step.2 = .write ref false ∧ handedBy ref step ≠ []

theorem LinkMove.left {link next : LinkState} {sent : Option Transaction}
    (move : LinkMove parse link next sent) (left : link.writer.left) : next.writer.left := by
  cases move with
  | received pc | wrote pc => rw [pc] at left; cases left
  | writeEnded | writerExits => rfl
  | _ => exact left

/-- A write loop that has left does not come back. -/
theorem writerLeft_of_step {ref : LinkRef} {label : ServerLabel} (left : state.writerLeft ref)
    (taken : (serverMachine parse).step state label = some after) : after.writerLeft ref := by
  obtain ⟨link, found, left⟩ := left
  obtain ⟨next, there, rfl | ⟨sent, move⟩⟩ := (linksMove_of_move (step_move taken)).link found
  · exact ⟨next, there, left⟩
  · exact ⟨next, there, move.left left⟩

/-- A write loop that has left hands nothing over. -/
theorem handedBy_of_left {ref : LinkRef} (left : state.writerLeft ref) (label : ServerLabel) :
    handedBy ref (state, label) = [] := by
  obtain ⟨link, found, left⟩ := left
  have idle : link.hand = [] := by
    unfold LinkState.hand
    split
    next tr pc => rw [pc] at left; cases left
    next => rfl
  cases label with
  | write target written => simp [handedBy, found, idle]
  | _ => rfl

/-- A write that fails ends the loop. -/
theorem writerLeft_of_leaves {ref : LinkRef} {label : ServerLabel}
    (leaves : leavesWriting ref (state, label))
    (taken : (serverMachine parse).step state label = some after) : after.writerLeft ref := by
  rcases leaves with left | ⟨fails, hands⟩
  · exact writerLeft_of_step left taken
  · obtain rfl : label = .write ref false := fails
    obtain ⟨link, next, sent, found, turn, created⟩ := write_turn taken
    refine ⟨next, ?_, ?_⟩
    · rw [ServerState.link, created, link_set (link_lt found), if_pos rfl]
    · simp only [handedBy, if_true, found, Option.map_some, Option.getD_some] at hands
      cases turn with
      | received pc => simp [LinkState.hand, pc] at hands
      | @wrote tr pc done =>
          have empty : tr.emitted = [] := by simpa using done
          simp [LinkState.hand, pc, empty] at hands
      | failed pc fails => rfl
      | exits place => rfl

/-- What a link writes: the bytes of what it accepted, in order and once, all of them when its write
loop waits and nothing is queued, and none after the loop has left or failed. -/
structure WritesInOrder (trace : List (ServerState × ServerLabel)) (state : ServerState)
    (ref : LinkRef) : Prop where
  inOrder : trace.flatMap (handedBy ref) <+:
    (trace.flatMap (acceptedBy ref)).flatMap Transaction.emitted
  complete : ∀ link, state.link ref = some link → link.writer = .receiving →
    link.outgoing.items = [] →
      trace.flatMap (handedBy ref) =
        (trace.flatMap (acceptedBy ref)).flatMap Transaction.emitted
  stops : trace.Pairwise fun step later => leavesWriting ref step → handedBy ref later = []

/-- A write loop that has left stays away. -/
theorem leaves_of_run {trace : List (ServerState × ServerLabel)} {ref : LinkRef}
    (run : (serverMachine parse).Run .start trace state) :
    (∀ step ∈ trace, leavesWriting ref step → state.writerLeft ref) ∧
      trace.Pairwise fun step later => leavesWriting ref step → handedBy ref later = [] := by
  induction run with
  | nil => exact ⟨by simp, .nil⟩
  | @snoc trace before label after prior taken ih =>
      obtain ⟨left, stops⟩ := ih
      constructor
      · intro step member leaves
        rcases List.mem_append.mp member with earlier | last
        · exact writerLeft_of_step (left step earlier leaves) taken
        · obtain rfl := List.mem_singleton.mp last
          exact writerLeft_of_leaves leaves taken
      · refine List.pairwise_append.mpr ⟨stops, List.pairwise_singleton _ _, ?_⟩
        intro step member last single leaves
        obtain rfl := List.mem_singleton.mp single
        exact handedBy_of_left (left step member leaves) label

/-- A link never writes more than it has accepted, and in that order. -/
theorem handed_front {trace : List (ServerState × ServerLabel)}
    (run : (serverMachine parse).Run .start trace state) (ref : LinkRef) :
    trace.flatMap (handedBy ref) <+:
      (trace.flatMap (acceptedBy ref)).flatMap Transaction.emitted := by
  rw [List.flatMap_assoc]
  exact run.ledger_front (writing_ledger parse ref) rfl rfl

/-- A write loop that waits with nothing queued has written all that its link accepted. -/
theorem handed_of_waiting {trace : List (ServerState × ServerLabel)} {ref : LinkRef}
    {link : LinkState} (run : (serverMachine parse).Run .start trace state)
    (found : state.link ref = some link) (receiving : link.writer = .receiving)
    (empty : link.outgoing.items = []) :
    trace.flatMap (handedBy ref) =
      (trace.flatMap (acceptedBy ref)).flatMap Transaction.emitted := by
  have drained : state.unwritten ref = [] := by
    simp [unwritten_of_link found, LinkState.unwritten, LinkState.hand, receiving, empty]
  rw [List.flatMap_assoc]
  exact (run.ledger_empty (writing_ledger parse ref) rfl rfl drained).symm

/-- In every run every link writes what it accepted, in order. -/
theorem writes_in_order {trace : List (ServerState × ServerLabel)}
    (run : (serverMachine parse).Run .start trace state) (ref : LinkRef) :
    WritesInOrder trace state ref where
  inOrder := handed_front run ref
  complete _ found receiving empty := handed_of_waiting run found receiving empty
  stops := (leaves_of_run run).2

/-- A SETTINGS frame is echoed and acknowledged, and both answers are written. -/
def settingsWritten : List ServerLabel :=
  registeredFirst ++ [.write ⟨0⟩ true, .write ⟨0⟩ true, .write ⟨0⟩ true, .write ⟨0⟩ true]

/-- The trace of `settingsWritten`. -/
def settingsTrace : List (ServerState × ServerLabel) :=
  (serverMachine fun _ => .incomplete).traceOf .start settingsWritten

/-- The two answers to a SETTINGS frame are written in order. -/
theorem settingsTrace_written :
    ∃ state, (serverMachine fun _ => .incomplete).Run .start settingsTrace state ∧
      (settingsTrace.flatMap (handedBy ⟨0⟩)).length = 18 ∧
      WritesInOrder settingsTrace state ⟨0⟩ := by
  obtain ⟨state, run, -⟩ := @Machine.run_of_exec_any _ _ (serverMachine fun _ => .incomplete)
    .start settingsWritten (fun _ => true) (by decide)
  exact ⟨state, run, by decide, writes_in_order run ⟨0⟩⟩

end H2l
