import H2l.Base.Outcome

/-!
# Loops that deliver until they fail

A loop repeats one step on a state. A step that returns a value delivers it and
the loop goes on; an error or a panic ends it. `Visits` is the relation between
the states at which the loop calls its step, and every fact about a whole run is
reduced to facts about the visited states.
-/

namespace Base

/-- How a loop ended. `unfinished` says that the bound on its turns was too small. -/
inductive Exit (ε : Type) where
  | failed (error : ε)
  | panicked (cause : Panic)
  | unfinished
deriving DecidableEq, Repr

/-- The values a loop delivered, each with the state it left behind, and its end. -/
@[ext]
structure Trace (σ ε α : Type) where
  delivered : List (α × σ)
  exit : Exit ε

namespace Loop

variable {σ ε α : Type}

/-- At most `fuel` turns of the loop. -/
def turns (step : σ → Outcome ε α × σ) : Nat → σ → Trace σ ε α
  | 0, _ => ⟨[], .unfinished⟩
  | fuel + 1, state =>
      match step state with
      | (.ok value, next) =>
          ⟨(value, next) :: (turns step fuel next).delivered, (turns step fuel next).exit⟩
      | (.err error, _) => ⟨[], .failed error⟩
      | (.panic cause, _) => ⟨[], .panicked cause⟩

/-- The loop bounded by the size of its state. -/
def run (size : σ → Nat) (step : σ → Outcome ε α × σ) (state : σ) : Trace σ ε α :=
  turns step (size state + 1) state

/-- Every delivery makes the state smaller. -/
def Drains (size : σ → Nat) (step : σ → Outcome ε α × σ) : Prop :=
  ∀ {state value next}, step state = (.ok value, next) → size next < size state

/-- The states at which the loop calls its step. -/
inductive Visits (step : σ → Outcome ε α × σ) : σ → σ → Prop where
  | here {state} : Visits step state state
  | later {state value next final} (delivers : step state = (.ok value, next))
      (further : Visits step next final) : Visits step state final

section Draining

variable {size : σ → Nat} {step : σ → Outcome ε α × σ}

/-- Any two bounds above the size of the state give the same run. -/
theorem turns_bound (drains : Drains size step) {first second : Nat} {state : σ}
    (below : size state < first) (below' : size state < second) :
    turns step first state = turns step second state := by
  induction first generalizing second state with
  | zero => omega
  | succ first ih =>
      obtain ⟨second, rfl⟩ : ∃ smaller, second = smaller + 1 := ⟨second - 1, by omega⟩
      simp only [turns]
      split
      next value next delivers =>
        have smaller := drains delivers
        rw [ih (by omega) (by omega : size next < second)]
      next => rfl
      next => rfl

/-- A delivery is followed by the run from the state it leaves. -/
theorem run_ok (drains : Drains size step) {state next : σ} {value : α}
    (delivers : step state = (.ok value, next)) :
    run size step state =
      ⟨(value, next) :: (run size step next).delivered, (run size step next).exit⟩ := by
  have smaller := drains delivers
  have same : turns step (size state) next = run size step next :=
    turns_bound drains smaller (Nat.lt_succ_self _)
  simp only [run, turns, delivers] at same ⊢
  rw [same]

/-- A first step that fails ends the loop before anything is handled. -/
theorem run_err {state next : σ} {error : ε} (fails : step state = (.err error, next)) :
    run size step state = ⟨[], .failed error⟩ := by
  simp only [run, turns, fails]

/-- A first step that panics unwinds the loop before anything is handled. -/
theorem run_panic {state next : σ} {cause : Panic} (panics : step state = (.panic cause, next)) :
    run size step state = ⟨[], .panicked cause⟩ := by
  simp only [run, turns, panics]

/-- Induction on a run: a property of states holds when it holds at every state given
that it holds at the state a delivery leads to. -/
theorem run_induction (drains : Drains size step) {motive : σ → Prop}
    (turn : ∀ state, (∀ value next, step state = (.ok value, next) → motive next) → motive state)
    (state : σ) : motive state := by
  suffices bounded : ∀ bound state, size state < bound → motive state from
    bounded (size state + 1) state (Nat.lt_succ_self _)
  intro bound
  induction bound with
  | zero => intro state below; omega
  | succ bound ih =>
      intro state below
      refine turn state fun value next delivers => ih next ?_
      have smaller := drains delivers
      omega

/-- A drained loop always ends by itself. -/
theorem run_exit_ne_unfinished (drains : Drains size step) (state : σ) :
    (run size step state).exit ≠ .unfinished := by
  induction state using run_induction drains with
  | turn state ih =>
      cases taken : step state with
      | mk outcome next =>
          cases outcome with
          | ok value => rw [run_ok drains taken]; exact ih value next taken
          | err error => rw [run_err taken]; simp
          | panic cause => rw [run_panic taken]; simp

/-- A run panics exactly when the step panics at a visited state. -/
theorem run_panics_iff (drains : Drains size step) (state : σ) (cause : Panic) :
    (run size step state).exit = .panicked cause ↔
      ∃ reached, Visits step state reached ∧ ∃ next, step reached = (.panic cause, next) := by
  constructor
  · induction state using run_induction drains with
    | turn state ih =>
        intro panics
        cases taken : step state with
        | mk outcome next =>
            cases outcome with
            | ok value =>
                rw [run_ok drains taken] at panics
                obtain ⟨reached, visits, final⟩ := ih value next taken panics
                exact ⟨reached, .later taken visits, final⟩
            | err error => rw [run_err taken] at panics; simp at panics
            | panic other =>
                rw [run_panic taken] at panics
                obtain rfl : other = cause := by simpa using panics
                exact ⟨state, .here, next, taken⟩
  · rintro ⟨reached, visits, next, panics⟩
    induction visits with
    | here => rw [run_panic panics]
    | later delivers _ ih => rw [run_ok drains delivers]; exact ih panics

end Draining

/-- Two steps that deliver the same value at a state go on from the same state. -/
def Lockstep (first second : σ → Outcome ε α × σ) : Prop :=
  ∀ {state value next next'}, first state = (.ok value, next) → second state = (.ok value, next') →
    next = next'

/-- The delivered values, without the states between them. -/
def values (trace : Trace σ ε α) : List α := trace.delivered.map Prod.fst

/-- A loop whose first step does not deliver delivers nothing. -/
theorem values_eq_nil {size : σ → Nat} {step : σ → Outcome ε α × σ} {state : σ}
    (silent : ∀ value next, step state ≠ (.ok value, next)) :
    values (run size step state) = [] := by
  cases taken : step state with
  | mk outcome next =>
      cases outcome with
      | ok value => exact absurd taken (silent value next)
      | err error => rw [run_err taken]; rfl
      | panic cause => rw [run_panic taken]; rfl

/-- What holds of whatever a step delivers holds of all that the loop delivers. -/
theorem forall_values {size : σ → Nat} {step : σ → Outcome ε α × σ} (drains : Drains size step)
    {holds : α → Prop}
    (delivers : ∀ {state value next}, step state = (.ok value, next) → holds value) (state : σ) :
    ∀ value ∈ values (run size step state), holds value := by
  induction state using run_induction drains with
  | turn state ih =>
      cases taken : step state with
      | mk outcome next =>
          cases outcome with
          | ok value =>
              rw [run_ok drains taken]
              exact List.forall_mem_cons.mpr ⟨delivers taken, ih value next taken⟩
          | err error => rw [run_err taken]; exact fun _ member => absurd member List.not_mem_nil
          | panic cause => rw [run_panic taken]; exact fun _ member => absurd member List.not_mem_nil

section TwoLoops

variable {size : σ → Nat} {first second : σ → Outcome ε α × σ}

/-- Runs that deliver the same and end alike start with the same outcome. -/
theorem outcome_eq_of_values_eq (drains : Drains size first) (drains' : Drains size second)
    {state : σ} (sameValues : values (run size first state) = values (run size second state))
    (sameExit : (run size first state).exit = (run size second state).exit) :
    (first state).1 = (second state).1 := by
  cases left : first state with
  | mk outcome next =>
      cases right : second state with
      | mk outcome' next' =>
          cases outcome with
          | ok value =>
              rw [run_ok drains left] at sameValues
              cases outcome' with
              | ok value' => rw [run_ok drains' right] at sameValues; simp_all [values]
              | err error => rw [run_err right] at sameValues; simp [values] at sameValues
              | panic cause => rw [run_panic right] at sameValues; simp [values] at sameValues
          | err error =>
              rw [run_err left] at sameValues sameExit
              cases outcome' with
              | ok value' => rw [run_ok drains' right] at sameValues; simp [values] at sameValues
              | err error' => rw [run_err right] at sameExit; simpa using sameExit
              | panic cause => rw [run_panic right] at sameExit; simp at sameExit
          | panic cause =>
              rw [run_panic left] at sameValues sameExit
              cases outcome' with
              | ok value' => rw [run_ok drains' right] at sameValues; simp [values] at sameValues
              | err error => rw [run_err right] at sameExit; simp at sameExit
              | panic cause' => rw [run_panic right] at sameExit; simpa using sameExit

/-- Runs that deliver the same and end alike have the same outcome at every state visited. -/
theorem outcomes_eq_of_values_eq (drains : Drains size first) (drains' : Drains size second)
    (lockstep : Lockstep first second) {state reached : σ} (visits : Visits first state reached)
    (sameValues : values (run size first state) = values (run size second state))
    (sameExit : (run size first state).exit = (run size second state).exit) :
    (first reached).1 = (second reached).1 := by
  induction visits with
  | here => exact outcome_eq_of_values_eq drains drains' sameValues sameExit
  | @later state value next final delivers _ ih =>
      have outcomes := outcome_eq_of_values_eq drains drains' sameValues sameExit
      rw [delivers] at outcomes
      have delivers' : second state = (.ok value, next) := by
        cases right : second state with
        | mk outcome next' =>
            rw [right] at outcomes
            obtain rfl : Outcome.ok value = outcome := outcomes
            rw [lockstep delivers right]
      rw [run_ok drains delivers, run_ok drains' delivers'] at sameValues sameExit
      refine ih ?_ sameExit
      simpa [values] using sameValues

/-- Equal outcomes at every state visited make the whole traces equal. -/
theorem run_eq_of_outcomes_eq (drains : Drains size first) (drains' : Drains size second)
    (lockstep : Lockstep first second) (state : σ)
    (outcomes : ∀ reached, Visits first state reached → (first reached).1 = (second reached).1) :
    run size first state = run size second state := by
  induction state using run_induction drains with
  | turn state ih =>
      have here := outcomes state .here
      cases left : first state with
      | mk outcome next =>
          cases right : second state with
          | mk outcome' next' =>
              obtain rfl : outcome = outcome' := by simpa [left, right] using here
              cases outcome with
              | ok value =>
                  obtain rfl := lockstep left right
                  have tail := ih value next left fun reached visits =>
                    outcomes reached (.later left visits)
                  rw [run_ok drains left, run_ok drains' right, tail]
              | err error => rw [run_err left, run_err right]
              | panic cause => rw [run_panic left, run_panic right]

end TwoLoops

section Views

variable {τ δ : Type} {size : σ → Nat} {size' : τ → Nat} {view : σ → τ}
  {first : σ → Outcome ε α × σ} {second : τ → Outcome δ α × τ}

/-- One loop delivers exactly what another does at the view of its state. -/
structure Views (view : σ → τ) (first : σ → Outcome ε α × σ) (second : τ → Outcome δ α × τ) :
    Prop where
  delivers : ∀ {state value next}, first state = (.ok value, next) →
    second (view state) = (.ok value, view next)
  delivered : ∀ {state value next}, second (view state) = (.ok value, next) →
    ∃ next', first state = (.ok value, next')

/-- A loop that is viewed by another delivers the same values. -/
theorem values_eq_of_views (views : Views view first second) (drains : Drains size first)
    (drains' : Drains size' second) (state : σ) :
    values (run size first state) = values (run size' second (view state)) := by
  induction state using run_induction drains with
  | turn state ih =>
      by_cases delivers : ∃ value next, first state = (.ok value, next)
      · obtain ⟨value, next, taken⟩ := delivers
        rw [run_ok drains taken, run_ok drains' (views.delivers taken)]
        exact congrArg (value :: ·) (ih value next taken)
      · rw [values_eq_nil fun value next taken => delivers ⟨value, next, taken⟩,
          values_eq_nil fun value next seen => delivers ⟨value, views.delivered seen⟩]

end Views

end Loop

end Base
