import H2l.Server.History

/-!
# The shutdown of a server

The forward loop ends only with the message `ACCEPT_LOOP_EXITED`. The accept loop sends
it on every way out but one: a failed `bind` returns at once. `exitAnnounced_iff` says
that the message is sent, and waits for a forward loop that still runs, exactly when the
listener was bound. The lemmas after it take a server whose forward loop has caught up
to its end, from each place of the accept loop.
-/

namespace H2l

open Base

/-- The message that ends the forward loop. -/
def Transaction.exits (body : Transaction) : Bool :=
  decide (body = .serverChanged .acceptLoopExited)

/-- The forward loop has the exit message in hand, or has ended. -/
def ForwardPc.leaves : ForwardPc → Bool
  | handling message => message.body.exits
  | calling _ last => last
  | exited => true
  | _ => false

/-- The queued messages that the forward loop comes to before it leaves. -/
def ServerState.ahead (state : ServerState) : List Message :=
  if state.forward.leaves then []
  else state.channel.items.takeWhile fun message => !message.body.exits

/-- The forward loop runs and will wait for a message. -/
def ForwardPc.runs (pc : ForwardPc) : Bool := !pc.leaves && decide (pc ≠ panicked)

/-- The closure will be called with `TERMINATED` in some continuation. -/
def Terminates (parse : HttpParser) (state : ServerState) : Prop :=
  ∃ final, (serverMachine parse).Leads state final ∧ final.main = .returned ∧
    .serverChanged .terminated ∈ final.callbacks

/-- The accept loop has announced its return, and the forward loop does not wait in vain. -/
structure ExitAnnounced (state : ServerState) : Prop where
  announced : state.accept = .returned → ∃ message ∈ state.history, message.body.exits
  awake : state.accept = .returned → state.forward.runs →
    ∃ message ∈ state.channel.items, message.body.exits

/-- The accept loop never returns unannounced, and `TERMINATED` is always reachable. -/
structure ServerCompletes (parse : HttpParser) (state : ServerState) : Prop
    extends ExitAnnounced state where
  terminates : Terminates parse state

/-- The listener is bound. -/
def Binds (_ : ServerState) (label : ServerLabel) : Prop := label ≠ .bind false

/-- What holds in every reachable state. -/
structure ExitInv (state : ServerState) : Prop where
  returned : ∀ message ∈ state.history, message.body.exits → state.accept = .returned
  leaves : ∀ message ∈ state.consumed, message.body.exits → state.forward.leaves ∨
    state.forward = .panicked
  waits : state.main ≠ .awaitingAccept → state.accept = .returned
  terminated : state.main = .returned → .serverChanged .terminated ∈ state.callbacks

/-- The accept loop has announced its return. -/
structure ReturnAnnounced (state : ServerState) : Prop extends ExitInv state where
  announced : state.accept = .returned → ∃ message ∈ state.history, message.body.exits

/-- The accept loop has returned without a word. -/
structure Silent (state : ServerState) : Prop where
  returned : state.accept = .returned
  unsent : ∀ message ∈ state.history, message.body.exits = false

variable {parse : HttpParser} {state after : ServerState}

theorem exitInv_start : ExitInv .start where
  returned _ member := absurd member List.not_mem_nil
  leaves _ member := absurd member List.not_mem_nil
  waits other := absurd rfl other
  terminated returned := by cases returned

/-- The accept loop never leaves its end. -/
theorem returned_of_move {label : ServerLabel} (move : ServerMove parse state label after)
    (returned : state.accept = .returned) : after.accept = .returned := by
  cases move with
  | looped mover step => rw [step.frame.accept, returned]
  | forwarded move => rw [(forward_turn move).acceptor.1, returned]
  | user idle other move => rw [move.frame.accept, returned]
  | acceptor idle other move =>
      cases move with
      | announced | unbound => rfl
      | awaited | terminated => exact returned
      | bound place | accepted place | stopped place | waited place | registered place =>
          cases place.symm.trans returned

/-- The exit message is the accept loop's last. -/
theorem exits_of_posting {label : ServerLabel} {sent : Option Message}
    (posting : Posting parse state label after sent) {message : Message}
    (added : message ∈ sent.toList) (exits : message.body.exits) :
    state.accept = .announcing ∧ after.accept = .returned := by
  have exit : message.body = .serverChanged .acceptLoopExited := by
    simpa [Transaction.exits] using exits
  cases posting with
  | silent => cases added
  | posted mover found move =>
      obtain rfl := List.mem_singleton.mp added
      have carries := move.lookup
      dsimp only at exit
      rw [exit] at carries
      cases carries
  | registered =>
      obtain rfl := List.mem_singleton.mp added
      cases exit
  | announced place returns => exact ⟨place, returns⟩

/-- Whether the forward loop leaves is decided by what it has consumed. -/
theorem leaves_of_turn (inv : ExitInv state) (turn : ForwardMove state after) :
    ∀ message ∈ after.consumed, message.body.exits →
      after.forward.leaves ∨ after.forward = .panicked := by
  intro message member exits
  cases turn with
  | @received received channel pc receives =>
      rcases List.mem_append.mp member with before | last
      · have left := inv.leaves message before exits
        simp [pc, ForwardPc.leaves] at left
      · obtain rfl := List.mem_singleton.mp last
        exact .inl exits
  | @handled current pc =>
      rw [(handled_forward pc).2] at member
      have left := inv.leaves message member exits
      simp only [pc, ForwardPc.leaves, reduceCtorEq, or_false, Transaction.exits,
        decide_eq_true_eq] at left
      rw [left]
      exact .inl rfl
  | acknowledged pc =>
      rw [sendUnwrap_consumed] at member
      have left := inv.leaves message member exits
      simp [pc, ForwardPc.leaves] at left
  | @called tr last pc =>
      have left := inv.leaves message member exits
      simp only [pc, ForwardPc.leaves, reduceCtorEq, or_false] at left
      rw [left]
      exact .inl rfl

/-- The thread that waits returns last, with `TERMINATED`. -/
theorem main_of_move {label : ServerLabel} (inv : ExitInv state)
    (move : ServerMove parse state label after) :
    (after.main ≠ .awaitingAccept → after.accept = .returned) ∧
      (after.main = .returned → .serverChanged .terminated ∈ after.callbacks) := by
  have stays := returned_of_move move
  have kept : after.main = state.main →
      (∀ tr ∈ state.callbacks, tr ∈ after.callbacks) →
      (after.main ≠ .awaitingAccept → after.accept = .returned) ∧
        (after.main = .returned → .serverChanged .terminated ∈ after.callbacks) := by
    intro main callbacks
    rw [main]
    exact ⟨fun other => stays (inv.waits other), fun returned =>
      callbacks _ (inv.terminated returned)⟩
  cases move with
  | looped mover step => exact kept step.frame.main fun _ member => step.frame.callbacks ▸ member
  | user idle other move => exact kept move.frame.main fun _ member => move.frame.callbacks ▸ member
  | forwarded move =>
      cases forward_turn move with
      | handled pc move | acknowledged pc move =>
          exact kept move.frame.main fun _ member => move.frame.callbacks ▸ member
      | received => exact kept rfl fun _ member => member
      | called => exact kept rfl fun _ member => List.mem_append_left _ member
  | acceptor idle other move =>
      cases move with
      | awaited place returned => exact ⟨fun _ => returned, by simp⟩
      | terminated place exited =>
          exact ⟨fun _ => inv.waits (by simp [place]), fun _ => by simp⟩
      | _ => exact kept rfl fun _ member => member

/-- Every step keeps what is known of the exit messages. -/
theorem exitInv_of_step {label : ServerLabel} (inv : ExitInv state)
    (taken : (serverMachine parse).step state label = some after) : ExitInv after := by
  have move := step_move taken
  obtain ⟨sent, posting, history⟩ := posting_of_move move
  refine ⟨fun message member exits => ?_, ?_, (main_of_move inv move).1, (main_of_move inv move).2⟩
  · rw [history] at member
    rcases List.mem_append.mp member with before | added
    · exact returned_of_move move (inv.returned message before exits)
    · exact (exits_of_posting posting added exits).2
  · by_cases forward : label = .forward
    · subst forward
      exact leaves_of_turn inv (forward_move taken)
    · have kept := (step_effect taken forward).2
      rw [kept.consumed, kept.forward]
      exact inv.leaves

/-- A listener that was bound returns by the announcement alone. -/
theorem announced_of_step {label : ServerLabel} (inv : ReturnAnnounced state)
    (binds : Binds state label) (taken : (serverMachine parse).step state label = some after) :
    ReturnAnnounced after := by
  have move := step_move taken
  obtain ⟨sent, posting, history⟩ := posting_of_move move
  have kept : state.accept = .returned → ∃ message ∈ after.history, message.body.exits := by
    intro returned
    obtain ⟨message, member, exits⟩ := inv.announced returned
    exact ⟨message, history ▸ List.mem_append_left _ member, exits⟩
  refine ⟨exitInv_of_step inv.toExitInv taken, fun returned => ?_⟩
  cases move with
  | looped mover step => exact kept (step.frame.accept ▸ returned)
  | forwarded move => exact kept ((forward_turn move).acceptor.1 ▸ returned)
  | user idle other move => exact kept (move.frame.accept ▸ returned)
  | acceptor idle other move =>
      cases move with
      | unbound => exact absurd rfl binds
      | announced place items =>
          refine ⟨⟨.serverChanged .acceptLoopExited, none⟩, ?_, rfl⟩
          simp [ServerState.history, items]
      | awaited | terminated => exact kept returned
      | _ => cases returned

/-- A failed bind returns without a word. -/
theorem silent_of_step {label : ServerLabel} (inv : ReturnAnnounced state)
    (fails : ¬ Binds state label)
    (taken : (serverMachine parse).step state label = some after) : Silent after := by
  obtain rfl : label = .bind false := Classical.not_not.mp fails
  simp only [serverMachine, ServerState.step, ServerState.acceptStep, ServerState.userStep,
    Option.or_none, Option.ite_none_right_eq_some, Option.some.injEq] at taken
  obtain ⟨place, rfl⟩ := taken
  refine ⟨rfl, fun message member => ?_⟩
  cases exits : message.body.exits with
  | false => rfl
  | true => cases place.symm.trans (inv.returned message member exits)

/-- After a failed bind nothing is announced. -/
theorem silent_stays {label : ServerLabel} (silent : Silent state)
    (taken : (serverMachine parse).step state label = some after) : Silent after := by
  have move := step_move taken
  obtain ⟨sent, posting, history⟩ := posting_of_move move
  refine ⟨returned_of_move move silent.returned, fun message member => ?_⟩
  rw [history] at member
  rcases List.mem_append.mp member with before | added
  · exact silent.unsent message before
  · cases exits : message.body.exits with
    | false => rfl
    | true => cases silent.returned.symm.trans (exits_of_posting posting added exits).1

section Finishing

variable {label : ServerLabel}

/-- Where a step leads to a state that terminates, the state before it does. -/
theorem Terminates.step (taken : (serverMachine parse).step state label = some after)
    (further : Terminates parse after) : Terminates parse state := by
  obtain ⟨final, leads, done⟩ := further
  exact ⟨final, leads.step taken, done⟩

/-- With both loops ended, the thread that waits for them calls the closure a last time. -/
theorem terminates_of_exited (inv : ExitInv state) (returned : state.accept = .returned)
    (exited : state.forward = .exited) : Terminates parse state := by
  have last : ∀ {before : ServerState}, before.main = .awaitingForward →
      before.forward = .exited → Terminates parse before := by
    intro before place exited
    have taken : (serverMachine parse).step before .main = some { before with
        main := .returned, callbacks := before.callbacks ++ [.serverChanged .terminated] } := by
      simp [serverMachine, ServerState.step, ServerState.acceptStep, place, exited]
    exact ⟨_, .step taken (.refl _), rfl, by simp⟩
  cases place : state.main with
  | returned => exact ⟨state, .refl state, place, inv.terminated place⟩
  | awaitingForward => exact last place exited
  | awaitingAccept =>
      have taken : (serverMachine parse).step state .main =
          some { state with main := .awaitingForward } := by
        simp [serverMachine, ServerState.step, ServerState.acceptStep, place, returned]
      exact .step taken (last rfl exited)

/-- The forward loop takes three steps over a message that calls the closure. -/
theorem leads_of_message (parse : HttpParser) {message : Message} {rest : List Message}
    {last : Bool} (pc : state.forward = .receiving) (items : state.channel.items = message :: rest)
    (calls : ∀ before : ServerState, ∃ tr,
      (before.handle message.body).forward = .calling tr last) :
    ∃ final, (serverMachine parse).Leads state final ∧
      final.forward = (if last then .exited else .receiving) ∧ final.channel.items = rest ∧
      final.accept = state.accept := by
  obtain ⟨channel, receives, items'⟩ := Channel.recv_of_items items
  let received : ServerState := { state with
    channel, forward := .handling message, consumed := state.consumed ++ [message] }
  obtain ⟨tr, calls⟩ := calls received
  have first : (serverMachine parse).step state .forward = some received := by
    simp [serverMachine, ServerState.step, ServerState.forwardStep, pc, receives, received]
  have second : (serverMachine parse).step received .forward =
      some (received.handle message.body) := rfl
  have third : (serverMachine parse).step (received.handle message.body) .forward =
      some { received.handle message.body with
        callbacks := (received.handle message.body).callbacks ++ [tr]
        forward := if last then .exited else .receiving } := by
    simp [serverMachine, ServerState.step, ServerState.forwardStep, calls]
  have moves := handle_move received message.body
  exact ⟨_, .step first (.step second (.step third (.refl _))), rfl,
    (congrArg Channel.items moves.frame.channel).trans items', moves.acceptor.1⟩

theorem exitInv_of_leads (inv : ExitInv state) (leads : (serverMachine parse).Leads state after) :
    ExitInv after := by
  obtain ⟨trace, run⟩ := leads
  have free : Machine.Guarded (fun _ _ => True) trace := fun _ _ => trivial
  exact run.invariant free inv fun inv _ taken => exitInv_of_step inv taken

theorem Terminates.leads (leads : (serverMachine parse).Leads state after)
    (further : Terminates parse after) : Terminates parse state := by
  obtain ⟨final, further, done⟩ := further
  exact ⟨final, leads.trans further, done⟩

/-- From each place of the accept loop, with the queue drained, the server can be shut down. -/
theorem terminates_of_announcing (inv : ExitInv state) (pc : state.forward = .receiving)
    (drained : state.channel.items = []) (place : state.accept = .announcing) :
    Terminates parse state := by
  obtain ⟨channel, sends, items⟩ := Channel.trySend_of_lt
    (⟨.serverChanged .acceptLoopExited, none⟩ : Message) (by rw [drained]; decide)
  have taken : (serverMachine parse).step state .announceExit =
      some { state with channel, accept := .returned } := by
    simp [serverMachine, ServerState.step, ServerState.acceptStep, place, ServerState.enqueue,
      sends]
  rw [drained, List.nil_append] at items
  obtain ⟨final, leads, exited, -, returned⟩ :=
    @leads_of_message { state with channel, accept := .returned } parse _ _ true pc items
      fun before => ⟨_, rfl⟩
  have leads' : (serverMachine parse).Leads state final := .step taken leads
  exact .leads leads' (terminates_of_exited (exitInv_of_leads inv leads') returned exited)

/-- From its accept, the accept loop times out and leaves. -/
theorem terminates_of_accepting (inv : ExitInv state) (pc : state.forward = .receiving)
    (drained : state.channel.items = []) (place : state.accept = .accepting) :
    Terminates parse state := by
  have first : (serverMachine parse).step state .shutdown =
      some { state with exitAcceptLoop := true } := by
    simp [serverMachine, ServerState.step, ServerState.acceptStep, ServerState.userStep]
  have second : (serverMachine parse).step { state with exitAcceptLoop := true } .timeout =
      some { state with exitAcceptLoop := true, accept := .announcing } := by
    simp [serverMachine, ServerState.step, ServerState.acceptStep, place]
  have leads : (serverMachine parse).Leads state _ := .step first (.step second (.refl _))
  exact .leads leads (terminates_of_announcing (exitInv_of_leads inv leads) pc drained rfl)

/-- A link that waits to be registered is registered first. -/
theorem terminates_of_registering {ref : LinkRef} (inv : ExitInv state)
    (pc : state.forward = .receiving) (drained : state.channel.items = [])
    (place : state.accept = .registering ref) : Terminates parse state := by
  obtain ⟨channel, sends, items⟩ := Channel.trySend_of_lt (⟨.newLink ref, none⟩ : Message)
    (by rw [drained]; decide)
  have taken : (serverMachine parse).step state .register =
      some { state with channel, accept := .accepting } := by
    simp [serverMachine, ServerState.step, ServerState.acceptStep, place, ServerState.enqueue,
      sends]
  rw [drained, List.nil_append] at items
  obtain ⟨final, leads, waits, rest, accepting⟩ :=
    @leads_of_message { state with channel, accept := .accepting } parse _ _ false pc items
      fun before => ⟨_, rfl⟩
  have leads' : (serverMachine parse).Leads state final := .step taken leads
  exact .leads leads' (terminates_of_accepting (exitInv_of_leads inv leads') waits rest accepting)

/-- A listener that is not bound yet is bound first. -/
theorem terminates_of_binding (inv : ExitInv state) (pc : state.forward = .receiving)
    (drained : state.channel.items = []) (place : state.accept = .binding) :
    Terminates parse state := by
  have taken : (serverMachine parse).step state (.bind true) =
      some { state with accept := .accepting } := by
    simp [serverMachine, ServerState.step, ServerState.acceptStep, place]
  have leads : (serverMachine parse).Leads state _ := .step taken (.refl _)
  exact .leads leads (terminates_of_accepting (exitInv_of_leads inv leads) pc drained rfl)

end Finishing

/-- A forward loop that runs after the announcement will find it. -/
theorem awake_of_announced (inv : ReturnAnnounced state) (returned : state.accept = .returned)
    (runs : state.forward.runs) : ∃ message ∈ state.channel.items, message.body.exits := by
  obtain ⟨message, member, exits⟩ := inv.announced returned
  rcases List.mem_append.mp member with consumed | queued
  · simp only [ForwardPc.runs, Bool.and_eq_true, Bool.not_eq_true', decide_eq_true_eq] at runs
    rcases inv.leaves message consumed exits with leaves | panicked
    · cases runs.1.symm.trans leaves
    · exact absurd panicked runs.2
  · exact ⟨message, queued, exits⟩

/-- In every run the accept loop announces its return exactly when its listener was bound. -/
theorem exitAnnounced_iff {trace : List (ServerState × ServerLabel)}
    (run : (serverMachine parse).Run .start trace state) :
    ExitAnnounced state ↔ Machine.Guarded Binds trace := by
  have start : ReturnAnnounced .start := ⟨exitInv_start, fun returned => by cases returned⟩
  rcases run.guarded_or start announced_of_step silent_of_step silent_stays with
    ⟨binds, inv⟩ | ⟨fails, silent⟩
  · exact iff_of_true ⟨inv.announced, awake_of_announced inv⟩ binds
  · refine iff_of_false (fun completes => ?_) fails
    obtain ⟨message, member, exits⟩ := completes.announced silent.returned
    cases (silent.unsent message member).symm.trans exits

/-- Where the listener was bound, an accept loop that has returned has announced it. -/
theorem returnAnnounced_of_run {trace : List (ServerState × ServerLabel)}
    (run : (serverMachine parse).Run .start trace state)
    (binds : Machine.Guarded Binds trace) : ReturnAnnounced state :=
  run.invariant binds ⟨exitInv_start, fun returned => by cases returned⟩ announced_of_step

instance (state : ServerState) (label : ServerLabel) : Decidable (Binds state label) :=
  match label with
  | .bind false => .isFalse fun binds => binds rfl
  | .bind true | .connect _ _ | .endAccept | .timeout | .register | .announceExit | .read _
  | .write _ _ | .forward | .main | .shutdown | .find _ | .drop _ | .send _ _ | .sendTo _ _ =>
      .isTrue (by simp [Binds])

end H2l
