import H2l.Server.Effect

/-!
# The forward loop keeps running

Two sends of the forward loop are unwrapped: the echo of a SETTINGS frame and its
acknowledgement. `forwardHandles_iff` says that the loop survives a run exactly
when each of them finds its link registered, its receiver alive and room in its
queue.
-/

namespace H2l

open Base

/-- The token to which an unwrapped send goes at this place, if there is one. -/
def ForwardPc.unwraps : ForwardPc → Option Token
  | .handling ⟨.frame (.settings settings) token, _⟩ =>
      if settings.isAck then none else some (token.getD ⟨0⟩)
  | .acknowledging token => some (token.getD ⟨0⟩)
  | _ => none

/-- The link is registered, its write loop has not dropped the receiver, and its outgoing
queue has room. -/
def ServerState.canSend (state : ServerState) (token : Token) : Bool :=
  match state.findLink token with
  | some (_, link) => !link.writer.ended && decide (link.outgoing.items.length < 1024)
  | none => false

/-- An unwrapped send is made only where it arrives. -/
def SendArrives (state : ServerState) : ServerLabel → Prop
  | .forward => ∀ token ∈ state.forward.unwraps, state.canSend token
  | _ => True

/-- The forward loop has handled what it received, and ends only with the accept loop. -/
structure ForwardHandles (state : ServerState) : Prop where
  calm : state.forward ≠ .panicked
  exit : state.forward = .exited →
    ∃ message ∈ state.consumed, message.body = .serverChanged .acceptLoopExited

/-- What a forward loop that never panicked keeps. -/
structure ForwardGood (state : ServerState) : Prop where
  calm : state.forward ≠ .panicked
  handling : ∀ message, state.forward = .handling message → message ∈ state.consumed
  leaving : (state.forward = .exited ∨ ∃ tr, state.forward = .calling tr true) →
    ∃ message ∈ state.consumed, message.body = .serverChanged .acceptLoopExited

variable {parse : HttpParser} {state after : ServerState}

/-- A send succeeds when the token has an entry whose write loop lives and has room. -/
theorem sendTo_isOk_iff (state : ServerState) (token : Token) (tr : Transaction) :
    (∃ after, state.sendTo token tr = .ok after) ↔ state.canSend token := by
  unfold ServerState.sendTo ServerState.canSend
  cases found : state.findLink token with
  | none => simp
  | some entry =>
      obtain ⟨ref, link⟩ := entry
      have room := Channel.trySend_isSome_iff link.outgoing tr
      cases ended : link.writer.ended with
      | true => simp [LinkState.send, ended]
      | false =>
          cases sends : link.outgoing.trySend tr with
          | none =>
              rw [sends] at room
              simpa [LinkState.send, ended, sends] using room
          | some outgoing =>
              rw [sends] at room
              simpa [LinkState.send, ended, sends] using room

/-- An unwrapped send goes on exactly where it arrives. -/
theorem sendUnwrap_forward (state : ServerState) (token : Token) (tr : Transaction)
    (next : ForwardPc) :
    (state.sendUnwrap token tr next).forward = if state.canSend token then next else .panicked := by
  have arrives := sendTo_isOk_iff state token tr
  unfold ServerState.sendUnwrap
  cases sends : state.sendTo token tr with
  | ok sent => simp [arrives.mp ⟨sent, sends⟩]
  | error error =>
      have fails : state.canSend token = false := by
        cases can : state.canSend token
        · rfl
        · obtain ⟨sent, sends'⟩ := arrives.mpr can
          rw [sends] at sends'
          cases sends'
      simp [fails]

/-- A send leaves the forward loop where it stands. -/
theorem sendTo_kept {token : Token} {tr : Transaction} (sends : state.sendTo token tr = .ok after) :
    ForwardKept state after := by
  obtain ⟨ref, link, next, -, -, -, rfl⟩ := sendTo_ok sends
  exact ⟨rfl, rfl, rfl⟩

/-- An unwrapped send consumes nothing. -/
theorem sendUnwrap_consumed (state : ServerState) (token : Token) (tr : Transaction)
    (next : ForwardPc) : (state.sendUnwrap token tr next).consumed = state.consumed := by
  unfold ServerState.sendUnwrap
  split
  next sent sends => exact (sendTo_kept sends).consumed
  next => rfl

/-- Where handling a transaction leads: to the closure, to the next message, or to an
unwrapped send. -/
inductive Handled (state : ServerState) (message : Message) : ForwardPc → Prop where
  | done (calm : state.forward.unwraps = none) : Handled state message .receiving
  | calls {tr} (calm : state.forward.unwraps = none) : Handled state message (.calling tr false)
  | leaves {tr} (calm : state.forward.unwraps = none)
      (exit : message.body = .serverChanged .acceptLoopExited) :
      Handled state message (.calling tr true)
  | unwraps {token next} (unwrapped : state.forward.unwraps = some token) :
      Handled state message (if state.canSend token then .acknowledging next else .panicked)

/-- Where the forward loop stands after handling a message. -/
theorem handled_forward {message : Message} (pc : state.forward = .handling message) :
    Handled state message (state.handle message.body).forward ∧
      (state.handle message.body).consumed = state.consumed := by
  obtain ⟨body, sender⟩ := message
  have unwraps : state.forward.unwraps = (ForwardPc.handling ⟨body, sender⟩).unwraps := by rw [pc]
  cases body with
  | frame frame token =>
      cases frame with
      | settings settings =>
          by_cases ack : settings.isAck
          · have same : state.handle (.frame (.settings settings) token) =
                { state with forward := .receiving } := by
              simp [ServerState.handle, ServerState.handleFrame, ack]
            rw [same]
            exact ⟨.done (unwraps.trans (if_pos ack)), rfl⟩
          · have same : state.handle (.frame (.settings settings) token) =
                state.sendUnwrap (token.getD ⟨0⟩) (.frame (.settings settings) token)
                  (.acknowledging token) := by
              simp [ServerState.handle, ServerState.handleFrame, ack]
            rw [same, sendUnwrap_forward, sendUnwrap_consumed]
            exact ⟨.unwraps (unwraps.trans (if_neg ack)), rfl⟩
      | data frame => exact ⟨.calls unwraps, rfl⟩
      | headers frame => exact ⟨.calls unwraps, rfl⟩
      | _ => exact ⟨.done unwraps, rfl⟩
  | linkChanged flags token =>
      simp only [ServerState.handle, ServerState.handleLinkChanged]
      split
      · split
        next sent sends => exact ⟨.done unwraps, (sendTo_kept sends).consumed⟩
        next => exact ⟨.done unwraps, rfl⟩
      · exact ⟨.calls unwraps, rfl⟩
      · exact ⟨.done unwraps, rfl⟩
  | serverChanged flags =>
      simp only [ServerState.handle]
      split
      next exited => exact ⟨.leaves unwraps (by rw [exited]), rfl⟩
      next => exact ⟨.done unwraps, rfl⟩
  | newLink ref => exact ⟨.calls unwraps, rfl⟩
  | bytes data token => exact ⟨.calls unwraps, rfl⟩
  | clientChanged flags token => exact ⟨.calls unwraps, rfl⟩

/-- A place in the middle of the loop's work, or between two messages. -/
theorem forwardGood_of_staying (staying : after.forward = .receiving ∨
      (∃ tr, after.forward = .calling tr false) ∨ ∃ token, after.forward = .acknowledging token) :
    ForwardGood after := by
  rcases staying with pc | ⟨tr, pc⟩ | ⟨token, pc⟩ <;>
    exact ⟨by simp [pc], by simp [pc], by simp [pc]⟩

/-- A forward loop on its way out has consumed the exit message. -/
theorem forwardGood_of_leaving {message : Message} (member : message ∈ after.consumed)
    (exit : message.body = .serverChanged .acceptLoopExited)
    (leaving : after.forward = .exited ∨ ∃ tr, after.forward = .calling tr true) :
    ForwardGood after := by
  rcases leaving with pc | ⟨tr, pc⟩ <;>
    exact ⟨by simp [pc], by simp [pc], fun _ => ⟨message, member, exit⟩⟩

/-- A step of the forward loop whose unwrapped send arrives. -/
theorem forwardGood_move (good : ForwardGood state)
    (arrives : ∀ token ∈ state.forward.unwraps, state.canSend token)
    (move : ForwardMove state after) : ForwardGood after := by
  cases move with
  | received pc receives =>
      refine ⟨nofun, ?_, by simp⟩
      rintro _ ⟨⟩
      exact List.mem_append_right _ List.mem_cons_self
  | @handled message pc =>
      obtain ⟨handled, consumed⟩ := handled_forward pc
      have member : message ∈ (state.handle message.body).consumed :=
        consumed ▸ good.handling message pc
      generalize next : (state.handle message.body).forward = place at handled
      cases handled with
      | done => exact forwardGood_of_staying (.inl next)
      | calls => exact forwardGood_of_staying (.inr (.inl ⟨_, next⟩))
      | leaves _ exit => exact forwardGood_of_leaving member exit (.inr ⟨_, next⟩)
      | @unwraps token _ unwrapped =>
          rw [if_pos (arrives token unwrapped)] at next
          exact forwardGood_of_staying (.inr (.inr ⟨_, next⟩))
  | @acknowledged token pc =>
      refine forwardGood_of_staying (.inl ?_)
      rw [sendUnwrap_forward, if_pos (arrives (token.getD ⟨0⟩) (by rw [pc]; rfl))]
  | @called tr last pc =>
      cases last with
      | false => exact forwardGood_of_staying (.inl rfl)
      | true =>
          obtain ⟨message, member, exit⟩ := good.leaving (.inr ⟨tr, pc⟩)
          exact forwardGood_of_leaving member exit (.inl rfl)

/-- A step of the forward loop whose unwrapped send does not arrive. -/
theorem panics_of_move (lost : ¬ ∀ token ∈ state.forward.unwraps, state.canSend token)
    (move : ForwardMove state after) : after.forward = .panicked := by
  cases move with
  | received pc => exact absurd (by simp [pc, ForwardPc.unwraps]) lost
  | @handled message pc =>
      obtain ⟨handled, -⟩ := handled_forward pc
      generalize (state.handle message.body).forward = place at handled
      cases handled with
      | done calm => exact absurd (by simp [calm]) lost
      | calls calm => exact absurd (by simp [calm]) lost
      | leaves calm => exact absurd (by simp [calm]) lost
      | unwraps unwrapped => exact if_neg fun can => lost (by simpa [unwrapped] using can)
  | @acknowledged token pc =>
      rw [sendUnwrap_forward]
      exact if_neg fun can => lost (by simpa [pc, ForwardPc.unwraps] using can)
  | called pc => exact absurd (by simp [pc, ForwardPc.unwraps]) lost

/-- Steps of other tasks leave a good forward loop good. -/
theorem forwardGood_of_kept (good : ForwardGood state) (kept : ForwardKept state after) :
    ForwardGood after := by
  obtain ⟨calm, handling, leaving⟩ := good
  rw [← kept.forward, ← kept.consumed] at *
  exact ⟨calm, handling, leaving⟩

/-- A step that makes its unwrapped send where it arrives. -/
theorem forwardGood_of_step {label : ServerLabel} (good : ForwardGood state)
    (arrives : SendArrives state label)
    (taken : (serverMachine parse).step state label = some after) : ForwardGood after := by
  by_cases forward : label = .forward
  · subst forward
    exact forwardGood_move good arrives (forward_move taken)
  · exact forwardGood_of_kept good (step_effect taken forward).2

/-- In every run the forward loop survives exactly when every unwrapped send was made where
it arrives. -/
theorem forwardHandles_iff {state : ServerState} {trace : List (ServerState × ServerLabel)}
    (run : (serverMachine parse).Run .start trace state) :
    ForwardHandles state ↔ Machine.Guarded SendArrives trace := by
  have start : ForwardGood .start := forwardGood_of_staying (.inl rfl)
  have spoils : ∀ {before label after}, ForwardGood before → ¬ SendArrives before label →
      (serverMachine parse).step before label = some after → after.forward = .panicked := by
    intro before label after good lost taken
    by_cases forward : label = .forward
    · subst forward
      exact panics_of_move lost (forward_move taken)
    · exact absurd (by cases label <;> trivial) lost
  have stays : ∀ {before label after}, before.forward = .panicked →
      (serverMachine parse).step before label = some after → after.forward = .panicked := by
    intro before label after panicked taken
    by_cases forward : label = .forward
    · subst forward
      simp [serverMachine, ServerState.step, ServerState.forwardStep, panicked] at taken
    · rw [(step_effect taken forward).2.forward, panicked]
  rcases run.guarded_or start forwardGood_of_step spoils stays with
    ⟨guarded, good⟩ | ⟨lost, panicked⟩
  · exact iff_of_true ⟨good.calm, fun exited => good.leaving (.inl exited)⟩ guarded
  · exact iff_of_false (fun handles => handles.calm panicked) lost

/-- A peer that sends the preface and an empty SETTINGS frame. -/
def settingsPeer : TcpStream :=
  ⟨Source.ofContent (Consts.http20Preface ++ [0, 0, 0, 4, 0, 0, 0, 0, 0]) none, 1, []⟩

/-- The link is registered before the frame is forwarded. -/
def registeredFirst : List ServerLabel :=
  [.bind true, .connect ⟨7⟩ settingsPeer, .register, .forward, .forward, .forward, .read ⟨0⟩,
    .read ⟨0⟩, .read ⟨0⟩, .forward, .forward, .forward]

/-- The frame is forwarded before the accept loop has sent `NewLink`. -/
def settingsFirst : List ServerLabel :=
  [.bind true, .connect ⟨7⟩ settingsPeer, .read ⟨0⟩, .read ⟨0⟩, .read ⟨0⟩, .forward, .forward]

instance (state : ServerState) : (label : ServerLabel) → Decidable (SendArrives state label)
  | .forward => inferInstanceAs (Decidable (∀ token ∈ state.forward.unwraps, state.canSend token))
  | .bind _ | .connect _ _ | .endAccept | .timeout | .register | .announceExit | .read _
  | .write _ _ | .main | .shutdown | .find _ | .drop _ | .send _ _ | .sendTo _ _ =>
      inferInstanceAs (Decidable True)

/-- A link is registered, and its first message is handled. -/
theorem registeredFirst_handles :
    ∃ state trace, (serverMachine fun _ => .incomplete).Run .start trace state ∧
      state.consumed.length = 2 ∧ ForwardHandles state := by
  obtain ⟨state, run, settled⟩ := @Machine.run_of_exec_any _ _ (serverMachine fun _ => .incomplete)
    .start registeredFirst (fun state => state.consumed.length = 2) (by decide)
  have guarded : Machine.Guarded SendArrives
      ((serverMachine fun _ => .incomplete).traceOf .start registeredFirst) := by
    unfold Machine.Guarded
    decide
  exact ⟨state, _, run, by simpa using settled, (forwardHandles_iff run).mpr guarded⟩

/-- The echo of the SETTINGS frame finds no link and unwinds the forward loop. -/
theorem settingsFirst_not_handles :
    ∃ state trace, (serverMachine fun _ => .incomplete).Run .start trace state ∧
      ¬ ForwardHandles state := by
  obtain ⟨state, run, panicked⟩ := @Machine.run_of_exec_any _ _ (serverMachine fun _ => .incomplete)
    .start settingsFirst (fun state => state.forward = .panicked) (by decide)
  exact ⟨state, _, run, fun handles => handles.calm (by simpa using panicked)⟩

end H2l
