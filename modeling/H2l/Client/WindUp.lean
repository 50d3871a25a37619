import H2l.Client.Safety
import H2l.Client.Settling

/-!
# The winding up of a client

`Client::shutdown` only stores `exit_loop`, which the maintenance loop tests at the head of
its loop and while it waits to connect again. `client_winds_up` says what follows: no more
than the attempt that is being made, boundedly many steps whatever the network and user
code do, and an end.
-/

namespace H2l

open Base

namespace ClientLabel

/-- An attempt to connect. -/
def attempts : ClientLabel → Nat
  | connect _ => 1
  | _ => 0

/-- A step of a task, the network or the clock. -/
def counts (label : ClientLabel) : Nat := if label.task = .user then 0 else 1

/-- The steps that a label makes necessary: for what is received on a new connection, and for a
message of user code. -/
def brings : ClientLabel → Nat
  | connect (.connected _ stream) => 2 * stream.input.content.length + 60
  | trySend _ => 2
  | _ => 0

end ClientLabel

namespace MantainPc

/-- The attempts to connect that are still made once `exit_loop` is set. -/
def attempts : MantainPc → Nat
  | connecting => 1
  | _ => 0

/-- The steps that the network and the clock still decide then, and those up to the next test. -/
def windUp : MantainPc → Nat
  | connecting => 6
  | delaying => 5
  | _ => 0

end MantainPc

/-- A client whose `exit_loop` is set. -/
structure WindsUp (trace : List (ClientState × ClientLabel)) (state : ClientState) : Prop where
  cause : (∃ taken ∈ trace, taken.2 = .shutdown) ∨ state.mantain.left
  attempts : ∀ further final, clientMachine.Run state further final →
    total (fun taken => taken.2.attempts) further ≤ state.mantain.attempts
  bounded : ∀ further final, clientMachine.Run state further final →
    total (fun taken => taken.2.counts) further ≤
      state.work + state.mantain.windUp + total (fun taken => taken.2.brings) further
  ends : ∀ further final, clientMachine.Run state further final →
    ∃ last stopped, clientMachine.Run final last stopped ∧
      (∀ taken ∈ last, taken.2.task ≠ .user) ∧
      (stopped.mantain = .returned ∨ stopped.mantain = .panicked ∨ stopped.Deadlocked)

variable {state after : ClientState} {label : ClientLabel}
  {trace : List (ClientState × ClientLabel)}

/-- A handshake leaves no more to read than it found. -/
theorem shaken_content_le {stream rest : TcpStream} {settings : Settings}
    (shakes : Client.handshake stream = (.ok settings, rest)) :
    rest.input.content.length ≤ stream.input.content.length := by
  obtain ⟨greeted, shaken, input⟩ := handshake_of_writable (writable_of_shaken shakes)
  rw [shaken] at shakes
  cases firstFrame_cases greeted with
  | refused err left reads => cases reads.symm.trans shakes
  | panicked cause left reads => cases reads.symm.trans shakes
  | accepted found left reads completes content =>
      cases reads.symm.trans shakes
      rw [content, ← input, List.length_drop]
      exact Nat.sub_le _ _

/-- With `exit_loop` set, the maintenance loop does not come to connect again by itself. -/
theorem MantainMove.windsUp (move : MantainMove state after) (asked : state.exitLoop) :
    after.exitLoop ∧ after.mantain.attempts = 0 ∧ after.mantain.windUp = 0 := by
  cases move with
  | tested pc =>
      rw [if_pos asked]
      exact ⟨asked, rfl, rfl⟩
  | clearedToken pc => exact ⟨asked, by split <;> rfl, by split <;> rfl⟩
  | checkedReconnected pc => exact ⟨asked, by split <;> rfl, by split <;> rfl⟩
  | storedExit pc => exact ⟨rfl, rfl, rfl⟩
  | _ => exact ⟨asked, rfl, rfl⟩

/-- The other tasks, and user code, leave the maintenance loop where it is. -/
theorem mantain_of_move (move : ClientMove state label after) (other : label.task ≠ .mantainLoop) :
    after.mantain = state.mantain ∧ (state.exitLoop → after.exitLoop) := by
  cases move with
  | read move | shutSocket move => exact ⟨move.frame.mantain, (move.frame.exitLoop.trans ·)⟩
  | wrote move => exact ⟨move.frame.mantain, (move.frame.exitLoop.trans ·)⟩
  | forwarded move => exact ⟨move.frame.mantain, (move.frame.exitLoop.trans ·)⟩
  | shutdown => exact ⟨rfl, fun _ => rfl⟩
  | joinedMantain | joinedForward | queued | dropped => exact ⟨rfl, id⟩
  | _ => exact absurd rfl other

/-- The attempts that are made are those that were left to make. -/
theorem attempts_pay : clientMachine.Pays (fun _ _ => True) (fun state => state.exitLoop)
    ClientLabel.attempts (fun _ => 0) (fun state => state.mantain.attempts) := by
  intro state label after asked _ taken
  have move := ClientState.move_of_step taken
  by_cases other : label.task ≠ .mantainLoop
  · obtain ⟨place, still⟩ := mantain_of_move move other
    have none : label.attempts = 0 := by
      cases label with
      | connect => exact absurd rfl other
      | _ => rfl
    exact ⟨still asked, by dsimp only; rw [place, none]; omega⟩
  · cases move with
    | mantained move =>
        obtain ⟨still, none, -⟩ := move.windsUp asked
        exact ⟨still, by dsimp only; rw [none]; exact Nat.zero_le _⟩
    | timedOut pc | failed pc | connected pc | refused pc | unwound pc =>
        exact ⟨asked, by simp [ClientLabel.attempts, MantainPc.attempts, pc]⟩
    | waited pc =>
        exact ⟨asked, by simp [ClientLabel.attempts, MantainPc.attempts, pc, asked]⟩
    | _ => exact absurd nofun other

/-- A step of a task takes work away. -/
theorem windUp_of_works (taken : clientMachine.step state label = some after)
    (works : label.Works) (fewer : after.mantain.windUp ≤ state.mantain.windUp) :
    label.counts + (after.work + after.mantain.windUp) ≤
      state.work + state.mantain.windUp + label.brings := by
  have smaller := client_shrinks works taken
  have counted : label.counts ≤ 1 := by
    unfold ClientLabel.counts
    split <;> simp
  omega

/-- Every step but those of user code takes work away, up to what a connection brings. -/
theorem windUp_pays : clientMachine.Pays (fun _ _ => True) (fun state => state.exitLoop)
    ClientLabel.counts ClientLabel.brings (fun state => state.work + state.mantain.windUp) := by
  intro state label after asked _ taken
  have move := ClientState.move_of_step taken
  by_cases works : label.Works
  · by_cases other : label.task ≠ .mantainLoop
    · obtain ⟨place, still⟩ := mantain_of_move move other
      exact ⟨still asked, windUp_of_works taken works (Nat.le_of_eq (congrArg _ place))⟩
    · cases move with
      | mantained move =>
          obtain ⟨still, -, none⟩ := move.windsUp asked
          exact ⟨still, windUp_of_works taken works (by rw [none]; exact Nat.zero_le _)⟩
      | waited | timedOut | failed | connected | refused | unwound => exact works.elim
      | _ => exact absurd nofun other
  · cases move with
    | timedOut pc | failed pc | refused pc | unwound pc =>
        refine ⟨asked, ?_⟩
        simp [ClientState.work, ClientState.loopsWork, pc, MantainPc.work, MantainPc.windUp,
          ClientLabel.counts, ClientLabel.task]
        omega
    | connected pc shakes =>
        have less := shaken_content_le shakes
        refine ⟨asked, ?_⟩
        simp [ClientState.work, ClientState.loopsWork, pc, MantainPc.work, MantainPc.windUp,
          ClientLabel.counts, ClientLabel.task, ClientLabel.brings]
        omega
    | waited pc =>
        refine ⟨asked, ?_⟩
        simp [ClientState.work, ClientState.loopsWork, pc, asked, MantainPc.work,
          MantainPc.windUp, ClientLabel.counts, ClientLabel.task]
        omega
    | shutdown =>
        exact ⟨rfl, by simp [ClientLabel.counts, ClientLabel.task, ClientState.work,
          ClientState.loopsWork]⟩
    | queued sends =>
        refine ⟨asked, ?_⟩
        simp [ClientState.work, ClientState.loopsWork, Channel.trySend_items sends,
          ClientLabel.brings, ClientLabel.counts, ClientLabel.task]
        omega
    | dropped => exact ⟨asked, by simp [ClientLabel.counts, ClientLabel.task]⟩
    | _ => exact absurd trivial works

/-- The maintenance loop does not come back from its way out. -/
theorem stays_left (move : ClientMove state label after) (left : state.mantain.left) :
    after.mantain.left := by
  by_cases other : label.task ≠ .mantainLoop
  · rw [(mantain_of_move move other).1]
    exact left
  · cases move with
    | mantained move =>
        cases move with
        | storedExit | loadedExited | storedExited => rfl
        | tested pc | storedToken pc | loadedHandshaked pc | storedHandshaked pc | loadedFlags pc
        | loadedToken pc | announced pc | loadedSettingsToken pc | sentSettings pc | spawned pc
        | joined pc | unwound pc | loadedClosed pc | removedClosed pc | clearedToken pc
        | checkedReconnected pc | loadedReconnected pc | storedReconnected pc =>
            rw [pc] at left
            cases left
    | timedOut pc | failed pc | connected pc | refused pc | unwound pc | waited pc =>
        rw [pc] at left
        cases left
    | _ => exact absurd nofun other

/-- `exit_loop` is set by user code, or by the maintenance loop on its way out. -/
theorem asked_of_move (move : ClientMove state label after) (asked : after.exitLoop) :
    state.exitLoop ∨ label = .shutdown ∨ after.mantain.left := by
  cases move with
  | mantained move =>
      cases move with
      | storedExit => exact .inr (.inr rfl)
      | _ => exact .inl asked
  | shutdown => exact .inr (.inl rfl)
  | read move | shutSocket move => exact .inl (move.frame.exitLoop ▸ asked)
  | wrote move => exact .inl (move.frame.exitLoop ▸ asked)
  | forwarded move => exact .inl (move.frame.exitLoop ▸ asked)
  | _ => exact .inl asked

/-- A client whose exit is asked for was shut down, or its maintenance loop has left. -/
theorem asked_of_run {autoReconnect : Bool}
    (run : clientMachine.Run (.start autoReconnect) trace state) :
    state.exitLoop → (∃ taken ∈ trace, taken.2 = .shutdown) ∨ state.mantain.left := by
  induction run with
  | nil => exact nofun
  | snoc prior taken ih =>
      intro asked
      have move := ClientState.move_of_step taken
      rcases asked_of_move move asked with earlier | rfl | left
      · rcases ih earlier with ⟨step, member, shuts⟩ | left
        · exact .inl ⟨step, List.mem_append_left _ member, shuts⟩
        · exact .inr (stays_left move left)
      · exact .inl ⟨_, List.mem_append_right _ (List.mem_singleton_self _), rfl⟩
      · exact .inr left

/-- A client that is not stuck has a step that takes work away. -/
theorem progress_of_asked (asked : state.exitLoop) (moves : ¬ state.Stuck) :
    ∃ label after, label.task ≠ .user ∧ clientMachine.step state label = some after ∧
      after.exitLoop ∧ after.work + after.mantain.windUp < state.work + state.mantain.windUp := by
  have goes : ∀ label after, label.task ≠ .user → label.brings = 0 →
      clientMachine.step state label = some after → ∃ label after, label.task ≠ .user ∧
        clientMachine.step state label = some after ∧ after.exitLoop ∧
        after.work + after.mantain.windUp < state.work + state.mantain.windUp := by
    intro label after own nothing taken
    obtain ⟨still, paid⟩ := windUp_pays asked trivial taken
    rw [ClientLabel.counts, if_neg own, nothing] at paid
    dsimp only at paid
    exact ⟨label, after, own, taken, still, by omega⟩
  simp only [ClientState.Stuck, Classical.not_forall] at moves
  obtain ⟨label, own, steps⟩ := moves
  obtain ⟨after, taken⟩ := Option.ne_none_iff_exists'.mp steps
  by_cases nothing : label.brings = 0
  · exact goes label after own nothing taken
  · -- A connection brings work; the attempt to connect might as well time out.
    cases ClientState.move_of_step taken with
    | connected pc | refused pc | unwound pc =>
        have expires : clientMachine.step state (.connect .timeout) =
            some { state with mantain := .head } := by
          simp only [clientMachine, ClientState.step, ClientState.connectStep, pc]
        exact goes (.connect .timeout) _ own rfl expires
    | queued | dropped => exact absurd rfl own
    | _ => exact absurd rfl nothing

/-- In every run, a client whose `exit_loop` is set makes no more than the attempt to connect that
is being made, takes boundedly many steps, and ends outside its loop or in a deadlock. -/
theorem client_winds_up {autoReconnect : Bool}
    (run : clientMachine.Run (.start autoReconnect) trace state) (asked : state.exitLoop) :
    WindsUp trace state where
  cause := asked_of_run run asked
  attempts further final onward := by
    have paid := (onward.account attempts_pay (fun _ _ => trivial) asked).2
    rw [total_const, Nat.zero_mul] at paid
    omega
  bounded further final onward := by
    have paid := (onward.account windUp_pays (fun _ _ => trivial) asked).2
    omega
  ends further final onward := by
    have still := (onward.account windUp_pays (fun _ _ => trivial) asked).1
    obtain ⟨last, stopped, ends, own, stuck⟩ :=
      Machine.leads_to_rest (fun state asked moves => progress_of_asked asked moves) final still
    exact ⟨last, stopped, ends, own, deadlocked_of_stuck ((run.append onward).append ends) stuck⟩

/-- A client is shut down while it connects. -/
def shutConnecting : List ClientLabel := [.mantain, .shutdown]

/-- The trace of `shutConnecting`. -/
def shutTrace : List (ClientState × ClientLabel) :=
  clientMachine.traceOf (.start true) shutConnecting

/-- A client is shut down while it connects, and winds up. -/
theorem shutTrace_windsUp :
    ∃ state, clientMachine.Run (.start true) shutTrace state ∧
      state.mantain.attempts = 1 ∧ WindsUp shutTrace state := by
  obtain ⟨state, run, shut⟩ := @Machine.run_of_exec_any _ _ clientMachine (.start true)
    shutConnecting (fun state => state.exitLoop && state.mantain.attempts == 1) (by decide)
  rw [Bool.and_eq_true, beq_iff_eq] at shut
  exact ⟨state, run, shut.2, client_winds_up run shut.1⟩

end H2l
