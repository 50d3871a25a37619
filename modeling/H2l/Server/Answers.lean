import H2l.Link.Preface
import H2l.Server.Writing

/-!
# Answers to SETTINGS

The forward loop answers a SETTINGS frame with its echo and an acknowledgement. Both go to
the link that the frame came from, once and in the order of the frames, as long as the
sends arrive; the first that does not arrive unwinds the loop.
-/

namespace H2l

open Base

/-- The answers to a frame of a link. -/
def Message.answers (ref : LinkRef) (message : Message) : List Transaction :=
  match message.body with
  | .frame (.settings settings) token =>
      if message.sender = some ref ∧ settings.isAck = false then
        [.frame (.settings settings) token, .frame (.settings Settings.ack) token]
      else []
  | _ => []

/-- The answers that the forward loop has yet to give. -/
def ServerState.owed (state : ServerState) (ref : LinkRef) : List Transaction :=
  match state.forward with
  | .handling message => message.answers ref
  | .acknowledging token =>
      if state.consumed.getLast?.bind Message.sender = some ref then
        [.frame (.settings Settings.ack) token]
      else []
  | _ => []

/-- The frames that a link accepts from the forward loop. -/
def answeredBy (ref : LinkRef) : ServerState × ServerLabel → List Transaction
  | (state, .forward) =>
      (acceptedBy ref (state, .forward)).filter fun tr => tr.carried.isSome
  | _ => []

variable {parse : HttpParser} {state after : ServerState}

/-- What a link accepts from the forward loop. -/
theorem acceptedBy_forward (state : ServerState) (ref : LinkRef) :
    acceptedBy ref (state, .forward) = match state.noticing with
      | some (token, tr) =>
          if state.links token = some ref ∧ state.takes ref tr then [tr] else []
      | none => [] := by
  simp only [acceptedBy, ServerState.sends]
  cases state.noticing with
  | none => rfl
  | some notice =>
      obtain ⟨token, tr⟩ := notice
      simp only [Option.bind_some]
      cases listed : state.links token <;> simp

/-- A forward loop that sends no frame answers nothing. -/
theorem answeredBy_of_silent {ref : LinkRef}
    (silent : ∀ token tr, state.noticing = some (token, tr) → tr.carried = none) :
    answeredBy ref (state, .forward) = [] := by
  rw [answeredBy, acceptedBy_forward]
  cases noticing : state.noticing with
  | none => rfl
  | some notice =>
      have other := silent notice.1 notice.2 noticing
      by_cases takes : state.links notice.1 = some ref ∧ state.takes ref notice.2 <;>
        simp [takes, other]

/-- A frame that is sent under a token is accepted by the link that stands there, or by none. -/
theorem answeredBy_of_noticing {ref : LinkRef} {token : Token} {tr : Transaction}
    (noticing : state.noticing = some (token, tr)) (carries : tr.carried.isSome) :
    answeredBy ref (state, .forward) =
      if state.links token = some ref ∧ state.takes ref tr then [tr] else [] := by
  rw [answeredBy, acceptedBy_forward, noticing]
  by_cases takes : state.links token = some ref ∧ state.takes ref tr <;> simp [takes, carries]

/-- A send that arrives is taken by the link under the token. -/
theorem takes_of_sendTo {token : Token} {tr : Transaction}
    (sends : state.sendTo token tr = .ok after) :
    ∃ ref, state.links token = some ref ∧ state.takes ref tr := by
  obtain ⟨ref, link, next, listed, found, queues, -⟩ := sendTo_ok sends
  exact ⟨ref, listed, by simp [ServerState.takes, found, queues, Except.isOk, Except.toBool]⟩

/-- A send that fails was refused by the link in the table. -/
theorem refused_of_sendTo {token : Token} {tr : Transaction} {error : SendError} {ref : LinkRef}
    (fails : state.sendTo token tr = .error error) (listed : state.links token = some ref) :
    state.takes ref tr = false := by
  unfold ServerState.sendTo ServerState.findLink at fails
  unfold ServerState.takes
  cases found : state.link ref with
  | none => rfl
  | some link =>
      cases sends : link.send tr with
      | error error => simp [sends, Except.isOk, Except.toBool]
      | ok next => simp [listed, found, sends] at fails

/-- The last message that was consumed comes from the link that stands under its token. -/
theorem sender_of_listed (reachable : (serverMachine parse).Reachable state) {message : Message}
    {token : Token} {ref : LinkRef} (last : state.consumed.getLast? = some message)
    (looked : message.body.lookup = some token) (listed : state.links token = some ref) :
    message.sender = some ref := by
  obtain ⟨start, trace, rfl, run⟩ := reachable
  have inv := tokenInv_of_run run
  obtain ⟨earlier, applied⟩ := inv.applied
  obtain ⟨init, consumed⟩ := List.getLast?_eq_some_iff.mp last
  obtain ⟨sender, same, -, own⟩ := reaches_sender inv consumed looked fun other there => by
    obtain ⟨-, registration, member, registers⟩ := applied.listed token other there
    have among : registration ∈ state.consumed := by
      rw [applied.consumed]
      exact List.mem_append_left _ member
    rw [consumed] at among
    rcases List.mem_append.mp among with before | final
    · exact ⟨registration, before, registers⟩
    · obtain rfl := List.mem_singleton.mp final
      rw [registers] at looked
      cases looked
  rcases own with free | own
  · rw [free] at listed
    cases listed
  · rw [own] at listed
    cases listed
    exact same

/-- What the forward loop has answered, and what it owes. -/
def Answering (ref : LinkRef) (answered : List Transaction) (state : ServerState) : Prop :=
  answered ++ state.owed ref = state.consumed.flatMap (Message.answers ref) ∨
    state.forward = .panicked ∧ answered <+: state.consumed.flatMap (Message.answers ref)

/-- An answer that is due goes to its link, or the loop unwinds. -/
theorem answering_of_unwrap {ref : LinkRef} {answered rest : List Transaction} {message : Message}
    {token : Token} {tr : Transaction} {next : ForwardPc}
    (reachable : (serverMachine parse).Reachable state)
    (noticing : state.noticing = some (token, tr)) (carries : tr.carried.isSome)
    (last : state.consumed.getLast? = some message) (looked : message.body.lookup = some token)
    (owed : state.owed ref = if message.sender = some ref then tr :: rest else [])
    (left : ∀ sent : ServerState, sent.forward = next → sent.consumed = state.consumed →
      sent.owed ref = if message.sender = some ref then rest else [])
    (answering : answered ++ state.owed ref = state.consumed.flatMap (Message.answers ref)) :
    Answering ref (answered ++ answeredBy ref (state, .forward))
      (state.sendUnwrap token tr next) := by
  have consumed := sendUnwrap_consumed state token tr next
  rw [answeredBy_of_noticing noticing carries]
  cases sends : state.sendTo token tr with
  | error error =>
      have refused : ¬ (state.links token = some ref ∧ state.takes ref tr) := by
        rintro ⟨listed, takes⟩
        rw [refused_of_sendTo sends listed] at takes
        cases takes
      rw [if_neg refused, List.append_nil]
      have panics : (state.sendUnwrap token tr next).forward = .panicked := by
        simp [ServerState.sendUnwrap, sends]
      refine .inr ⟨panics, ?_⟩
      rw [consumed, ← answering]
      exact List.prefix_append _ _
  | ok sent =>
      obtain ⟨target, listed, takes⟩ := takes_of_sendTo sends
      have sender := sender_of_listed reachable last looked listed
      have goes : (state.sendUnwrap token tr next).forward = next := by
        simp [ServerState.sendUnwrap, sends]
      left
      rw [left _ goes consumed, consumed, ← answering, owed, sender, listed]
      by_cases same : target = ref
      · subst same
        simp [takes]
      · simp [same]

/-- A frame is sent where the send is unwrapped. -/
theorem unwraps_of_notice {body tr : Transaction} {token : Token} (sender : Option LinkRef)
    (notice : body.notice = some (token, tr)) :
    tr.carried = none ∨ (ForwardPc.handling ⟨body, sender⟩).unwraps = some token := by
  cases body with
  | frame carried source =>
      cases carried with
      | settings settings =>
          simp only [Transaction.notice] at notice
          split at notice <;> cases notice
          next ack => exact .inr (if_neg ack)
      | _ => cases notice
  | linkChanged flags source =>
      simp only [Transaction.notice] at notice
      split at notice <;> cases notice
      exact .inl rfl
  | _ => cases notice

/-- Where the loop owes no unwrapped send, handling a message owes none either. -/
theorem owed_of_handled (ref : LinkRef) {message : Message}
    (pc : state.forward = .handling message) (calm : state.forward.unwraps = none) :
    state.owed ref = [] ∧ (state.handle message.body).owed ref = [] ∧
      answeredBy ref (state, .forward) = [] := by
  refine ⟨?_, ?_, answeredBy_of_silent fun token tr noticing => ?_⟩
  · obtain ⟨body, sender⟩ := message
    rw [ServerState.owed, pc]
    rw [pc] at calm
    simp only [Message.answers]
    split
    next settings token =>
      have ack : settings.isAck = true := by
        by_cases ack : settings.isAck
        · exact ack
        · exact absurd calm (by simp [ForwardPc.unwraps, ack])
      simp [ack]
    next => rfl
  · obtain ⟨handled, -⟩ := handled_forward pc
    generalize place : (state.handle message.body).forward = next at handled
    cases handled with
    | done | calls | leaves => rw [ServerState.owed, place]
    | unwraps unwrapped => cases calm.symm.trans unwrapped
  · rw [ServerState.noticing, pc] at noticing
    rw [pc] at calm
    refine (unwraps_of_notice message.sender noticing).resolve_right fun unwrapped => ?_
    cases calm.symm.trans unwrapped

/-- The forward loop unwraps a send only when it handles SETTINGS without ACK. -/
theorem settings_of_unwraps {message : Message}
    (unwraps : (ForwardPc.handling message).unwraps ≠ none) :
    ∃ settings token, message.body = .frame (.settings settings) token ∧
      settings.isAck = false := by
  obtain ⟨body, sender⟩ := message
  cases body with
  | frame carried token =>
      cases carried with
      | settings settings =>
          refine ⟨settings, token, rfl, Bool.eq_false_iff.mpr fun ack => unwraps ?_⟩
          exact if_pos ack
      | _ => exact absurd rfl unwraps
  | _ => exact absurd rfl unwraps

/-- Every step of the forward loop gives an answer that is due, or takes on new ones. -/
theorem answering_of_forward {ref : LinkRef} {answered : List Transaction}
    (reachable : (serverMachine parse).Reachable state)
    (taken : (serverMachine parse).step state .forward = some after)
    (answering : answered ++ state.owed ref = state.consumed.flatMap (Message.answers ref)) :
    Answering ref (answered ++ answeredBy ref (state, .forward)) after := by
  cases forward_move taken with
  | @received message channel pc receives =>
      have silent : answeredBy ref (state, .forward) = [] :=
        answeredBy_of_silent (by simp [ServerState.noticing, pc])
      have paid : state.owed ref = [] := by rw [ServerState.owed, pc]
      rw [paid, List.append_nil] at answering
      left
      rw [silent, answering]
      simp [ServerState.owed]
  | @handled message pc =>
      by_cases calm : state.forward.unwraps = none
      · obtain ⟨paid, free, silent⟩ := owed_of_handled ref pc calm
        left
        rw [silent, free, List.append_nil, List.append_nil, (handled_forward pc).2, ← answering,
          paid, List.append_nil]
      · rw [pc] at calm
        obtain ⟨settings, token, body, fresh⟩ := settings_of_unwraps calm
        have goes : state.handle message.body = state.sendUnwrap (token.getD ⟨0⟩)
            (.frame (.settings settings) token) (.acknowledging token) := by
          simp [body, ServerState.handle, ServerState.handleFrame, fresh]
        have noticing : state.noticing =
            some (token.getD ⟨0⟩, .frame (.settings settings) token) := by
          simp [ServerState.noticing, pc, body, Transaction.notice, fresh]
        have owed : state.owed ref = if message.sender = some ref then
            [.frame (.settings settings) token, .frame (.settings Settings.ack) token] else [] := by
          simp [ServerState.owed, pc, Message.answers, body, fresh]
        have last := last_of_handling reachable pc
        rw [goes]
        refine answering_of_unwrap reachable noticing rfl last (by rw [body]; rfl) owed ?_ answering
        intro sent place consumed
        simp only [ServerState.owed, place, consumed, last, Option.bind_some]
  | @acknowledged token pc =>
      obtain ⟨message, last, looked⟩ := last_of_acknowledging reachable pc
      have noticing : state.noticing =
          some (token.getD ⟨0⟩, .frame (.settings Settings.ack) token) := by
        rw [ServerState.noticing, pc]
      have owed : state.owed ref = if message.sender = some ref then
          [.frame (.settings Settings.ack) token] else [] := by
        simp only [ServerState.owed, pc, last, Option.bind_some]
      refine answering_of_unwrap reachable noticing rfl last looked owed ?_ answering
      intro sent place consumed
      rw [ServerState.owed, place, ite_self]
  | @called tr last pc =>
      have silent : answeredBy ref (state, .forward) = [] :=
        answeredBy_of_silent (by simp [ServerState.noticing, pc])
      have paid : state.owed ref = [] := by rw [ServerState.owed, pc]
      left
      rw [silent, List.append_nil, ← answering, paid]
      cases last <;> rfl

/-- The answers to the SETTINGS frames of a link: in order and at most once, and all of them between
two messages. -/
structure SettingsAnswered (trace : List (ServerState × ServerLabel)) (state : ServerState)
    (ref : LinkRef) : Prop where
  inOrder : trace.flatMap (answeredBy ref) <+: state.consumed.flatMap (Message.answers ref)
  complete : state.forward = .receiving →
    trace.flatMap (answeredBy ref) = state.consumed.flatMap (Message.answers ref)

/-- In every run a link was sent the answers to what was consumed, but for those still owed. -/
theorem answering_of_run {trace : List (ServerState × ServerLabel)}
    (run : (serverMachine parse).Run .start trace state) (ref : LinkRef) :
    Answering ref (trace.flatMap (answeredBy ref)) state := by
  induction run with
  | nil => exact .inl rfl
  | @snoc trace before label after prior taken ih =>
      have reachable : (serverMachine parse).Reachable before := ⟨_, trace, rfl, prior⟩
      rw [List.flatMap_append, List.flatMap_singleton]
      by_cases forward : label = .forward
      · subst forward
        rcases ih with answering | ⟨panicked, -⟩
        · exact answering_of_forward reachable taken answering
        · simp [serverMachine, ServerState.step, ServerState.forwardStep, panicked] at taken
      · have kept := (step_effect taken forward).2
        have silent : answeredBy ref (before, label) = [] := by
          cases label <;> first | rfl | exact absurd rfl forward
        have owed : after.owed ref = before.owed ref := by
          simp only [ServerState.owed, kept.forward, kept.consumed]
        rw [silent, List.append_nil, Answering, owed, kept.consumed, kept.forward]
        exact ih

/-- A link is never sent more than the answers to what was consumed. -/
theorem answered_front {trace : List (ServerState × ServerLabel)}
    (run : (serverMachine parse).Run .start trace state) (ref : LinkRef) :
    trace.flatMap (answeredBy ref) <+: state.consumed.flatMap (Message.answers ref) := by
  rcases answering_of_run run ref with answering | ⟨-, answered⟩
  · exact ⟨_, answering⟩
  · exact answered

/-- Between two messages nothing is owed. -/
theorem answered_of_receiving {trace : List (ServerState × ServerLabel)}
    (run : (serverMachine parse).Run .start trace state) (ref : LinkRef)
    (receiving : state.forward = .receiving) :
    trace.flatMap (answeredBy ref) = state.consumed.flatMap (Message.answers ref) := by
  rcases answering_of_run run ref with answering | ⟨panicked, -⟩
  · have paid : state.owed ref = [] := by rw [ServerState.owed, receiving]
    rwa [paid, List.append_nil] at answering
  · rw [receiving] at panicked
    cases panicked

/-- In every run the forward loop answers the SETTINGS frames of every link to that link. -/
theorem settings_answered {trace : List (ServerState × ServerLabel)}
    (run : (serverMachine parse).Run .start trace state) (ref : LinkRef) :
    SettingsAnswered trace state ref where
  inOrder := answered_front run ref
  complete := answered_of_receiving run ref

/-- A peer whose SETTINGS are answered with two frames. -/
theorem settingsTrace_answered :
    ∃ state, (serverMachine fun _ => .incomplete).Run .start settingsTrace state ∧
      (settingsTrace.flatMap (answeredBy ⟨0⟩)).length = 2 ∧
      SettingsAnswered settingsTrace state ⟨0⟩ := by
  obtain ⟨state, run, -⟩ := @Machine.run_of_exec_any _ _ (serverMachine fun _ => .incomplete)
    .start settingsWritten (fun _ => true) (by decide)
  exact ⟨state, run, by decide, settings_answered run ⟨0⟩⟩

end H2l
