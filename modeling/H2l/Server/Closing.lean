import H2l.Server.Forward

/-!
# The notice of a closed reader reaches the writer

When a read loop ends, its message travels through the shared channel, the forward
loop looks the link up by its token and passes the message on with a `try_send`.
`noticeKept_of_arrives` says that nothing is lost of what the forward loop has consumed, as
long as each such send finds the link and room in its queue.
-/

namespace H2l

open Base

/-- A notice that makes a write loop leave. -/
def Transaction.closes : Transaction → Bool
  | .linkChanged flags _ => FlagSet.contains flags LinkFlags.readClosed
  | _ => false

/-- The write loop has left, or a notice in its queue will make it leave. -/
def LinkState.notified (link : LinkState) : Bool :=
  link.writer.left || link.outgoing.items.any Transaction.closes

/-- The write loop of a link that exists is out of its receive loop, or will be. -/
def ServerState.notified (state : ServerState) (ref : LinkRef) : Bool :=
  (state.link ref).any LinkState.notified

/-- Between two messages, a link whose notice and whose registration were both consumed has
been notified. -/
def NoticeKept (state : ServerState) : Prop :=
  state.forward = .receiving → ∀ ref,
    (∃ message ∈ state.consumed, message.sender = some ref ∧ message.body.closes) →
    (∃ message ∈ state.consumed, message.body = .newLink ref) → state.notified ref

/-- A notice that the forward loop is about to pass on finds its own link and room there,
or is not needed any more. -/
def ServerState.noticeArrives (state : ServerState) : Message → Bool
  | ⟨.linkChanged flags token, some ref⟩ =>
      decide (linkChangedArm flags ≠ .notify) || state.notified ref ||
        (state.links token == some ref &&
          (state.link ref).any fun link => decide (link.outgoing.items.length < 1024))
  | _ => true

/-- The message that the forward loop is working on. -/
def ForwardPc.current : ForwardPc → List Message
  | handling message => [message]
  | _ => []

@[simp] theorem current_receiving : ForwardPc.receiving.current = [] := rfl

@[simp] theorem current_acknowledging (token : Option Token) :
    (ForwardPc.acknowledging token).current = [] := rfl

@[simp] theorem current_calling (tr : Transaction) (last : Bool) :
    (ForwardPc.calling tr last).current = [] := rfl

/-- Every notice is passed on where it arrives. -/
def NoticeArrives (state : ServerState) : ServerLabel → Prop
  | .forward => ∀ message ∈ state.forward.current, state.noticeArrives message
  | _ => True

/-- What the read loop's exit sequence finds while the write loop has not left. -/
def ReaderPc.Finds : ReaderPc → Word → Prop
  | closing .reload, word | closing .finished, word => word = LinkFlags.readClosed.bits
  | closing (.announce flags), word => word = LinkFlags.readClosed.bits ∧ flags = .readClosed
  | closing (.store loaded), word => word = LinkFlags.none.bits ∧ loaded = .none
  | _, word => word = LinkFlags.none.bits

/-- While the write loop has not left, the read loop finds no flag but its own. -/
def LinkState.Closes (link : LinkState) : Prop :=
  link.writer.left = false → link.reader.Finds link.word

/-- A message of a link's loops that closes it carries exactly `READ_CLOSED`, unless the write
loop has left. -/
def Announced (state : ServerState) (message : Message) : Prop :=
  ∀ ref, message.sender = some ref → message.body.closes →
    (∃ token, message.body = .linkChanged .readClosed token) ∨ state.notified ref

/-- What the notices rest on: everything consumed but the current message was passed on. -/
structure ClosingInv (state : ServerState) : Prop where
  links : ∀ ref link, state.link ref = some link → link.Closes
  queued : ∀ message ∈ state.channel.items, Announced state message
  handling : ∀ message ∈ state.forward.current, Announced state message
  handled : ∃ earlier, state.consumed = earlier ++ state.forward.current ∧
    ∀ message ∈ earlier, ∀ ref, message.sender = some ref → message.body.closes →
      state.notified ref

variable {parse : HttpParser} {state after : ServerState}

/-- A closing notice takes the write loop out of its receive loop. -/
theorem received_left {tr : Transaction} (closes : tr.closes) : (WriterPc.received tr).left := by
  cases tr with
  | linkChanged flags token =>
      simp only [Transaction.closes] at closes
      simp [WriterPc.received, closes, WriterPc.left]
  | _ => cases closes

/-- A link that was notified stays notified. -/
theorem LinkMove.notified {link next : LinkState} {sent : Option Transaction}
    (move : LinkMove parse link next sent) (notified : link.notified) : next.notified := by
  cases move with
  | @received tr outgoing pc receives =>
      simp only [LinkState.notified, pc, WriterPc.left, Bool.false_or,
        Channel.recv_items receives, List.any_cons, Bool.or_eq_true] at notified
      simp only [LinkState.notified, Bool.or_eq_true]
      rcases notified with closes | later
      · exact .inl (received_left closes)
      · exact .inr later
  | wrote pc => simpa [LinkState.notified, pc, WriterPc.left] using notified
  | writeEnded pc => simp [LinkState.notified, WriterPc.left]
  | writerExits place => simp [LinkState.notified, WriterPc.left]
  | queued alive sends =>
      simp only [LinkState.notified, Channel.trySend_items sends, List.any_append, Bool.or_eq_true]
        at notified ⊢
      exact notified.imp id .inl
  | _ => exact notified

/-- One step of a read loop's exit sequence, while the write loop has not left. -/
theorem finds_advance {pc next : ExitPc} {word word' : Word} {message : Option LinkFlags}
    (finds : (ReaderPc.closing pc).Finds word)
    (advances : pc.advance .reader word = some (next, word', message)) :
    (ReaderPc.closing next).Finds word' ∧ ∀ flags, message = some flags → flags = .readClosed := by
  cases pc with
  | load =>
      cases advances
      obtain rfl : word = LinkFlags.none.bits := finds
      exact ⟨⟨rfl, flags_none⟩, nofun⟩
  | store loaded =>
      cases advances
      obtain ⟨rfl, rfl⟩ := finds
      exact ⟨none_or_closed .reader, nofun⟩
  | reload =>
      cases advances
      obtain rfl : word = LinkFlags.readClosed.bits := finds
      exact ⟨⟨rfl, flags_closed .reader⟩, nofun⟩
  | announce flags =>
      cases advances
      obtain ⟨rfl, rfl⟩ := finds
      exact ⟨rfl, fun flags same => (Option.some.inj same).symm⟩
  | finished => cases advances

/-- Every step of a link keeps what its read loop finds. -/
theorem LinkMove.closes {link next : LinkState} {sent : Option Transaction}
    (move : LinkMove parse link next sent) (closes : link.Closes) : next.Closes := by
  intro left
  cases move with
  | readerExits place advances =>
      have finds := closes left
      rw [place] at finds
      exact (finds_advance finds advances).1
  | received pc => exact closes (by rw [pc]; rfl)
  | wrote pc => exact closes (by rw [pc]; rfl)
  | writeEnded => cases left
  | writerExits => cases left
  | queued => exact closes left
  | shaken pc | shakeUnwound pc | fetched pc | readEnded pc | readUnwound pc | delivered pc =>
      have finds := closes left
      rw [pc] at finds
      exact finds

/-- A notice that a loop sends carries exactly `READ_CLOSED`, unless the write loop has left. -/
theorem LinkMove.announces {link next : LinkState} {body : Transaction}
    (move : LinkMove parse link next (some body)) (closes : link.Closes) (notice : body.closes) :
    (∃ token, body = .linkChanged .readClosed token) ∨ next.notified := by
  generalize sent : some body = message at move
  cases move with
  | delivered pc =>
      cases sent
      cases notice
  | @readerExits pc after word message place advances =>
      cases message with
      | none => cases sent
      | some flags =>
          cases sent
          cases left : link.writer.left with
          | true => exact .inr (by simp [LinkState.notified, left])
          | false =>
              have finds := closes left
              rw [place] at finds
              obtain rfl := (finds_advance finds advances).2 flags rfl
              exact .inl ⟨link.token, rfl⟩
  | writerExits => exact .inr (by simp [LinkState.notified, WriterPc.left])
  | _ => cases sent

/-- Every step keeps the notifications. -/
theorem Effect.notified (effect : Effect parse state after) {ref : LinkRef}
    (notified : state.notified ref) : after.notified ref := by
  simp only [ServerState.notified, ServerState.link] at notified ⊢
  cases effect with
  | quiet created => rwa [created]
  | posted _ created => rwa [created]
  | @accepted _ token stream created =>
      rw [created]
      cases found : state.created[ref.index]? with
      | none => simp [found] at notified
      | some link =>
          obtain ⟨bound, -⟩ := List.getElem?_eq_some_iff.mp found
          rw [List.getElem?_append_left bound, found]
          simpa [found] using notified
  | @moved moving _ _ step created =>
      rw [created]
      cases step with
      | moved found move =>
          rw [link_set (link_lt found)]
          by_cases same : ref = moving
          · rw [if_pos same]
            subst same
            simp only [ServerState.link] at found
            rw [found] at notified
            simpa using move.notified (by simpa using notified)
          · rwa [if_neg same]

/-- Every step keeps what the read loops find. -/
theorem Effect.closes (effect : Effect parse state after)
    (links : ∀ ref link, state.link ref = some link → link.Closes) {ref : LinkRef}
    {link : LinkState} (there : after.link ref = some link) : link.Closes := by
  simp only [ServerState.link] at there
  cases effect with
  | quiet created =>
      rw [created] at there
      exact links ref link there
  | posted _ created =>
      rw [created] at there
      exact links ref link there
  | @accepted _ token stream created =>
      rw [created] at there
      by_cases bound : ref.index < state.created.length
      · rw [List.getElem?_append_left bound] at there
        exact links ref link there
      · rw [List.getElem?_append_right (Nat.le_of_not_lt bound)] at there
        obtain rfl : link = .new token stream := List.mem_singleton.mp (List.mem_of_getElem? there)
        exact fun _ => rfl
  | @moved moving _ _ step created =>
      rw [created] at there
      cases step with
      | moved found move =>
          rw [link_set (link_lt found)] at there
          by_cases same : ref = moving
          · rw [if_pos same] at there
            cases there
            exact move.closes (links moving _ found)
          · rw [if_neg same] at there
            exact links ref link there

/-- Every message that a step adds to the channel is announced. -/
theorem Effect.announced (effect : Effect parse state after)
    (links : ∀ ref link, state.link ref = some link → link.Closes)
    (queued : ∀ message ∈ state.channel.items, Announced state message) :
    ∀ message ∈ after.channel.items, Announced after message := by
  have stays : ∀ message, Announced state message → Announced after message :=
    fun message announced ref sender closes =>
      (announced ref sender closes).imp id fun notified => effect.notified notified
  intro message member
  cases effect with
  | quiet _ channel =>
      rw [channel] at member
      exact stays message (queued message member)
  | accepted _ channel =>
      rw [channel] at member
      exact stays message (queued message member)
  | posted _ _ channel =>
      rw [channel, List.mem_append, List.mem_singleton] at member
      rcases member with member | rfl
      · exact stays message (queued message member)
      · exact nofun
  | @moved moving _ _ step created channel =>
      rw [channel] at member
      cases step with
      | @moved link next sent channel found move items =>
          simp only [items, List.mem_append] at member
          rcases member with member | member
          · exact stays message (queued message member)
          · cases sent with
            | none => cases member
            | some body =>
                obtain rfl : message = ⟨body, some moving⟩ := by simpa using member
                rintro ref ⟨⟩ notice
                refine (move.announces (links moving link found) notice).imp id fun notified => ?_
                simp only [ServerState.notified, ServerState.link]
                rw [created, link_set (link_lt found), if_pos rfl]
                simpa using notified

/-- Every step outside the forward loop keeps the invariant. -/
theorem closingInv_of_kept (inv : ClosingInv state) (effect : Effect parse state after)
    (kept : ForwardKept state after) : ClosingInv after where
  links ref link there := effect.closes inv.links there
  queued := effect.announced inv.links inv.queued
  handling message member ref sender closes := by
    rw [kept.forward] at member
    exact (inv.handling message member ref sender closes).imp id fun notified =>
      effect.notified notified
  handled := by
    obtain ⟨earlier, consumed, handled⟩ := inv.handled
    rw [kept.consumed, kept.forward]
    exact ⟨earlier, consumed, fun message member ref sender closes =>
      effect.notified (handled message member ref sender closes)⟩

/-- A send to a registered link with room puts the transaction into its queue. -/
theorem sendTo_of_room {token : Token} {ref : LinkRef} {link : LinkState} (tr : Transaction)
    (listed : state.links token = some ref) (found : state.link ref = some link)
    (alive : link.writer.ended = false) (room : link.outgoing.items.length < 1024) :
    ∃ next, state.sendTo token tr = .ok (state.setLink ref next) ∧
      next.outgoing.items = link.outgoing.items ++ [tr] := by
  cases sends : link.outgoing.trySend tr with
  | none =>
      have full := (Channel.trySend_eq_none_iff link.outgoing tr).mp sends
      exact absurd room full
  | some outgoing =>
      refine ⟨{ link with outgoing }, ?_, Channel.trySend_items sends⟩
      simp [ServerState.sendTo, ServerState.findLink, listed, found, LinkState.send, alive, sends]

/-- A notice that arrives is passed on. -/
theorem notified_of_arrives (parse : HttpParser) {token : Token} {ref : LinkRef}
    (arrives : state.noticeArrives ⟨.linkChanged .readClosed token, some ref⟩) :
    (state.handle (.linkChanged .readClosed token)).notified ref := by
  have arm : linkChangedArm .readClosed = .notify := by decide
  have effect := @handle_effect parse state (.linkChanged .readClosed token)
  by_cases before : state.notified ref
  · exact effect.notified before
  · simp only [ServerState.noticeArrives, arm, before, ne_eq, not_true_eq_false, decide_false,
      Bool.false_or, Bool.and_eq_true, beq_iff_eq] at arrives
    obtain ⟨listed, there⟩ := arrives
    cases found : state.link ref with
    | none => simp [found] at there
    | some link =>
        have room : link.outgoing.items.length < 1024 := by simpa [found] using there
        have alive : link.writer.ended = false := by
          simp only [ServerState.notified, found, Option.any_some, LinkState.notified,
            Bool.or_eq_true, not_or] at before
          cases pc : link.writer <;> simp_all [WriterPc.left, WriterPc.ended]
        obtain ⟨next, sends, items⟩ :=
          sendTo_of_room (.linkChanged .readClosed token) listed found alive room
        have queued : next.notified := by
          simp [LinkState.notified, items, Transaction.closes, FlagSet.contains]
        simp only [ServerState.handle, ServerState.handleLinkChanged, arm, sends,
          ServerState.notified, ServerState.link, ServerState.setLink]
        rw [link_set (link_lt found), if_pos rfl]
        simpa using queued

/-- A message that was handled is no longer the current one. -/
theorem not_current_of_handled {message : Message} {place : ForwardPc}
    (handled : Handled state message place) : place.current = [] := by
  cases handled with
  | unwraps => split <;> rfl
  | _ => rfl

/-- A step that is done with the current message keeps the invariant when it passed the
notice on. -/
theorem closingInv_of_done (inv : ClosingInv state) (effect : Effect parse state after)
    (consumed : after.consumed = state.consumed) (idle : after.forward.current = [])
    (passed : ∀ message ∈ state.forward.current, ∀ ref, message.sender = some ref →
      message.body.closes → after.notified ref) : ClosingInv after where
  links ref link there := effect.closes inv.links there
  queued := effect.announced inv.links inv.queued
  handling := by simp [idle]
  handled := by
    obtain ⟨earlier, split, handled⟩ := inv.handled
    refine ⟨state.consumed, by rw [consumed, idle, List.append_nil], ?_⟩
    intro message member ref sender closes
    rw [split] at member
    rcases List.mem_append.mp member with member | member
    · exact effect.notified (handled message member ref sender closes)
    · exact passed message member ref sender closes

/-- Receiving a message moves it from the channel to the current place. -/
theorem closingInv_received (inv : ClosingInv state) {message : Message}
    {channel : Channel Message 4096} (pc : state.forward = .receiving)
    (receives : state.channel.recv = some (message, channel)) :
    ClosingInv { state with
      channel, forward := .handling message, consumed := state.consumed ++ [message] } where
  links := inv.links
  queued other member := by
    refine inv.queued other ?_
    rw [Channel.recv_items receives]
    exact List.mem_cons_of_mem _ member
  handling other member := by
    obtain rfl := List.mem_singleton.mp member
    refine inv.queued other ?_
    rw [Channel.recv_items receives]
    exact List.mem_cons_self
  handled := by
    obtain ⟨earlier, split, handled⟩ := inv.handled
    rw [pc, current_receiving, List.append_nil] at split
    exact ⟨state.consumed, rfl, split ▸ handled⟩

/-- Every step of the forward loop whose notice arrives keeps the invariant. -/
theorem closingInv_move (parse : HttpParser) (inv : ClosingInv state)
    (arrives : ∀ message ∈ state.forward.current, state.noticeArrives message)
    (move : ForwardMove state after) : ClosingInv after := by
  cases move with
  | received pc receives => exact closingInv_received inv pc receives
  | @handled message pc =>
      obtain ⟨handled, consumed⟩ := handled_forward pc
      have effect := @handle_effect parse state message.body
      refine closingInv_of_done inv effect consumed (not_current_of_handled handled) ?_
      have current : state.forward.current = [message] := by rw [pc, ForwardPc.current]
      rw [current]
      intro other member ref sender closes
      obtain rfl := List.mem_singleton.mp member
      have announced := inv.handling other (current ▸ List.mem_cons_self)
      rcases announced ref sender closes with ⟨token, exact⟩ | notified
      · obtain ⟨body, from'⟩ := other
        obtain rfl : body = _ := exact
        obtain rfl : from' = _ := sender
        exact notified_of_arrives parse (arrives _ (current ▸ List.mem_cons_self))
      · exact effect.notified notified
  | @acknowledged token pc =>
      refine closingInv_of_done inv (@sendUnwrap_effect parse _ _ _ _)
        (sendUnwrap_consumed _ _ _ _) ?_ (by simp [pc])
      rw [sendUnwrap_forward]
      split <;> rfl
  | @called tr last pc =>
      have effect : Effect parse state { state with
          callbacks := state.callbacks ++ [tr], forward := if last then .exited else .receiving } :=
        .quiet rfl rfl
      refine closingInv_of_done inv effect rfl ?_ (by simp [pc])
      cases last <;> rfl

/-- The invariant holds before the first step. -/
theorem closingInv_start : ClosingInv .start where
  links ref link there := by simp [ServerState.link, ServerState.start] at there
  queued message member := absurd member List.not_mem_nil
  handling message member := absurd member List.not_mem_nil
  handled := ⟨[], rfl, fun message member => absurd member List.not_mem_nil⟩

/-- Every run whose notices arrive keeps the invariant. -/
theorem closingInv_of_run {state : ServerState} {trace : List (ServerState × ServerLabel)}
    (run : (serverMachine parse).Run .start trace state)
    (guarded : Machine.Guarded NoticeArrives trace) : ClosingInv state := by
  refine run.invariant guarded closingInv_start ?_
  intro before label after inv arrives taken
  by_cases forward : label = .forward
  · subst forward
    exact closingInv_move parse inv arrives (forward_move taken)
  · obtain ⟨effect, kept⟩ := step_effect taken forward
    exact closingInv_of_kept inv effect kept

/-- In every run in which each notice was passed on where it arrives, a link whose notice and
whose registration were both consumed has been notified. -/
theorem noticeKept_of_arrives {state : ServerState} {trace : List (ServerState × ServerLabel)}
    (run : (serverMachine parse).Run .start trace state)
    (guarded : Machine.Guarded NoticeArrives trace) : NoticeKept state := by
  rintro receiving ref ⟨message, member, sender, closes⟩ -
  obtain ⟨earlier, consumed, handled⟩ := (closingInv_of_run run guarded).handled
  rw [receiving, current_receiving, List.append_nil] at consumed
  exact handled message (consumed ▸ member) ref sender closes

/-- Flags that ask for a notice make a closing one. -/
theorem closes_of_notify {flags : LinkFlags} (arm : linkChangedArm flags = .notify)
    (token : Token) : (Transaction.linkChanged flags token).closes := by
  unfold linkChangedArm at arm
  split at arm
  next same => rw [same]; rfl
  next => split at arm <;> cases arm

/-- A notice that does not arrive leaves its link without one. -/
theorem not_notified_of_lost {flags : LinkFlags} {token : Token} {ref : LinkRef}
    (lost : state.noticeArrives ⟨.linkChanged flags token, some ref⟩ = false) :
    (Transaction.linkChanged flags token).closes ∧
      (state.handle (.linkChanged flags token)).forward = .receiving ∧
      (state.handle (.linkChanged flags token)).notified ref = false := by
  simp only [ServerState.noticeArrives, Bool.or_eq_false_iff, decide_eq_false_iff_not, ne_eq,
    Decidable.not_not] at lost
  obtain ⟨⟨arm, before⟩, unreachable⟩ := lost
  refine ⟨closes_of_notify arm token, ?_⟩
  simp only [ServerState.handle, ServerState.handleLinkChanged, arm]
  cases sends : state.sendTo token (.linkChanged flags token) with
  | error error => exact ⟨rfl, before⟩
  | ok sent =>
      obtain ⟨other, link, next, listed, found, queues, rfl⟩ := sendTo_ok sends
      refine ⟨rfl, ?_⟩
      by_cases same : ref = other
      · subst same
        obtain ⟨-, outgoing, queued, -⟩ := send_ok queues
        have room := (Channel.trySend_isSome_iff link.outgoing _).mp (by rw [queued]; rfl)
        simp [listed, found, room] at unreachable
      · simp only [ServerState.notified, ServerState.link, ServerState.setLink] at before ⊢
        rwa [link_set (link_lt found), if_neg same]

/-- The guard is exact once the link is registered: the first notice that does not arrive leaves
the link in the table without one. -/
theorem lostNotice_not_noticeKept {state after : ServerState}
    {trace : List (ServerState × ServerLabel)}
    (run : (serverMachine parse).Run .start trace state)
    (guarded : Machine.Guarded NoticeArrives trace)
    (taken : (serverMachine parse).step state .forward = some after)
    {flags : LinkFlags} {token : Token} {ref : LinkRef}
    (pc : state.forward = .handling ⟨.linkChanged flags token, some ref⟩)
    (lost : state.noticeArrives ⟨.linkChanged flags token, some ref⟩ = false)
    (registered : ∃ message ∈ state.consumed, message.body = .newLink ref) :
    ¬ NoticeKept after := by
  have current : state.forward.current = [⟨.linkChanged flags token, some ref⟩] := by
    rw [pc, ForwardPc.current]
  have handles : after = state.handle (.linkChanged flags token) := by
    simpa [serverMachine, ServerState.step, ServerState.forwardStep, pc] using taken.symm
  obtain ⟨closes, receiving, waits⟩ := not_notified_of_lost lost
  obtain ⟨earlier, consumed, -⟩ := (closingInv_of_run run guarded).handled
  have same : after.consumed = state.consumed := handles ▸ (handled_forward pc).2
  intro kept
  have notified := kept (handles ▸ receiving) ref
    ⟨⟨.linkChanged flags token, some ref⟩, by simp [same, consumed, current], rfl, closes⟩
    (same ▸ registered)
  rw [handles, waits] at notified
  cases notified

instance (state : ServerState) : (label : ServerLabel) → Decidable (NoticeArrives state label)
  | .forward =>
      inferInstanceAs (Decidable (∀ message ∈ state.forward.current, state.noticeArrives message))
  | .bind _ | .connect _ _ | .endAccept | .timeout | .register | .announceExit | .read _
  | .write _ _ | .main | .shutdown | .find _ | .drop _ | .send _ _ | .sendTo _ _ =>
      inferInstanceAs (Decidable True)

/-- A peer that closes at once. -/
def silentPeer : TcpStream := ⟨Source.ofContent [] none, 1, []⟩

/-- The read loop up to its exit message. -/
def readerLeaves : List ServerLabel := List.replicate 6 (.read ⟨0⟩)

/-- The link is registered before its reader closes. -/
def closedAfter : List ServerLabel :=
  [.bind true, .connect ⟨7⟩ silentPeer, .register, .forward, .forward, .forward] ++ readerLeaves ++
    [.forward, .forward]

/-- The reader's message is consumed before the link is registered. -/
def closedBefore : List ServerLabel :=
  [.bind true, .connect ⟨7⟩ silentPeer] ++ readerLeaves ++
    [.forward, .forward, .register, .forward, .forward, .forward]

/-- Between two messages, with both messages of the first link consumed. -/
def ServerState.bothConsumed (state : ServerState) : Bool :=
  decide (state.forward = .receiving) &&
    (state.consumed.any fun message => message.sender == some ⟨0⟩ && message.body.closes) &&
    state.consumed.any fun message => decide (message.body = .newLink ⟨0⟩)

/-- The notice finds no link; the writer of the registered link waits without one. -/
theorem closedBefore_not_noticeKept :
    ∃ state trace, (serverMachine fun _ => .incomplete).Run .start trace state ∧
      ¬ NoticeKept state := by
  obtain ⟨state, run, checked⟩ := @Machine.run_of_exec_any _ _ (serverMachine fun _ => .incomplete)
    .start closedBefore (fun state => state.bothConsumed && !state.notified ⟨0⟩) (by decide)
  simp only [ServerState.bothConsumed, Bool.and_eq_true, decide_eq_true_eq, List.any_eq_true,
    beq_iff_eq, Bool.not_eq_true'] at checked
  obtain ⟨⟨⟨receiving, closed⟩, registered⟩, waits⟩ := checked
  refine ⟨state, _, run, fun kept => ?_⟩
  rw [kept receiving ⟨0⟩ closed registered] at waits
  cases waits

end H2l
