/-!
# Labelled machines and their runs

A `Machine` has initial states and a step for each label; the labels carry all
the nondeterminism, so that a step is a partial function. A `Run` keeps every
state it left together with the label it took there. `Run.invariant` is the rule
by which an invariant is carried along a run whose steps all meet a guard.
-/

namespace Base

/-- Initial states and labelled partial steps. -/
structure Machine (State Label : Type) where
  initial : State → Prop
  step : State → Label → Option State

namespace Machine

variable {State Label : Type} {machine : Machine State Label}

/-- Zero or more steps, with the states they were taken in. -/
inductive Run (machine : Machine State Label) (start : State) :
    List (State × Label) → State → Prop where
  | nil : Run machine start [] start
  | snoc {trace state label next} (prior : Run machine start trace state)
      (taken : machine.step state label = some next) :
      Run machine start (trace ++ [(state, label)]) next

/-- The states of some run from an initial state. -/
def Reachable (machine : Machine State Label) (state : State) : Prop :=
  ∃ start trace, machine.initial start ∧ machine.Run start trace state

/-- Every step of a run was taken where the guard holds. -/
def Guarded (guard : State → Label → Prop) (trace : List (State × Label)) : Prop :=
  ∀ taken ∈ trace, guard taken.1 taken.2

/-- The empty run meets every condition on steps. -/
theorem guarded_nil (guard : State → Label → Prop) : Guarded guard [] := by
  simp [Guarded]

/-- A run meets a condition on steps when the earlier steps and the last one do. -/
theorem guarded_snoc_iff {guard : State → Label → Prop} {trace : List (State × Label)}
    {state : State} {label : Label} :
    Guarded guard (trace ++ [(state, label)]) ↔ Guarded guard trace ∧ guard state label := by
  simp only [Guarded, List.mem_append, List.mem_singleton]
  constructor
  · intro every
    exact ⟨fun taken member => every taken (.inl member), every (state, label) (.inr rfl)⟩
  · rintro ⟨every, last⟩ taken (member | rfl)
    · exact every taken member
    · exact last

/-- What holds at the start and is kept by every step that meets the guard holds at the end
of a run whose steps all meet it. -/
theorem Run.invariant {guard : State → Label → Prop} {holds : State → Prop} {start state : State}
    {trace : List (State × Label)} (run : machine.Run start trace state)
    (guarded : Guarded guard trace) (initially : holds start)
    (kept : ∀ {before label after}, holds before → guard before label →
      machine.step before label = some after → holds after) :
    holds state := by
  induction run with
  | nil => exact initially
  | snoc prior taken ih =>
      obtain ⟨earlier, last⟩ := guarded_snoc_iff.mp guarded
      exact kept (ih earlier) last taken

/-- What holds of the empty trace and is kept when a step is added to the trace holds of the
trace of every run. -/
theorem Run.traceInvariant {holds : List (State × Label) → State → Prop} {start state : State}
    {trace : List (State × Label)} (run : machine.Run start trace state)
    (initially : holds [] start)
    (kept : ∀ {trace before label after}, machine.Run start trace before → holds trace before →
      machine.step before label = some after → holds (trace ++ [(before, label)]) after) :
    holds trace state := by
  induction run with
  | nil => exact initially
  | snoc prior taken ih => exact kept prior ih taken

/-- A run stays good while its steps meet the guard, and bad from the first that does not. -/
theorem Run.guarded_or {guard : State → Label → Prop} {good bad : State → Prop}
    {start state : State} {trace : List (State × Label)} (run : machine.Run start trace state)
    (initially : good start)
    (kept : ∀ {before label after}, good before → guard before label →
      machine.step before label = some after → good after)
    (spoils : ∀ {before label after}, good before → ¬ guard before label →
      machine.step before label = some after → bad after)
    (stays : ∀ {before label after}, bad before → machine.step before label = some after →
      bad after) :
    Guarded guard trace ∧ good state ∨ ¬ Guarded guard trace ∧ bad state := by
  induction run with
  | nil => exact .inl ⟨guarded_nil guard, initially⟩
  | @snoc trace before label after prior taken ih =>
      rw [guarded_snoc_iff]
      rcases ih with ⟨guarded, holds⟩ | ⟨unguarded, spoiled⟩
      · by_cases meets : guard before label
        · exact .inl ⟨⟨guarded, meets⟩, kept holds meets taken⟩
        · exact .inr ⟨fun both => meets both.2, spoils holds meets taken⟩
      · exact .inr ⟨fun both => unguarded both.1, stays spoiled taken⟩

/-- An invariant of every step holds in every reachable state. -/
theorem Reachable.invariant {holds : State → Prop} {state : State}
    (reachable : machine.Reachable state)
    (initially : ∀ start, machine.initial start → holds start)
    (kept : ∀ {before label after}, holds before →
      machine.step before label = some after → holds after) :
    holds state := by
  obtain ⟨start, trace, valid, run⟩ := reachable
  have free : Guarded (fun _ _ => True) trace := fun _ _ => trivial
  exact run.invariant free (initially start valid) fun before _ taken => kept before taken

/-- One step is a run. -/
theorem Run.single {state next : State} {label : Label}
    (taken : machine.step state label = some next) : machine.Run state [(state, label)] next :=
  .snoc .nil taken

/-- Two runs that meet compose. -/
theorem Run.append {start middle state : State} {first second : List (State × Label)}
    (run : machine.Run start first middle) (further : machine.Run middle second state) :
    machine.Run start (first ++ second) state := by
  induction further with
  | nil => simpa using run
  | snoc prior taken ih => simpa [List.append_assoc] using ih.snoc taken

/-- Some run goes from one state to another. -/
def Leads (machine : Machine State Label) (state final : State) : Prop :=
  ∃ trace, machine.Run state trace final

/-- Every state leads to itself. -/
theorem Leads.refl (state : State) : machine.Leads state state := ⟨[], .nil⟩

/-- A step and what it leads to. -/
theorem Leads.step {state next final : State} {label : Label}
    (taken : machine.step state label = some next) (further : machine.Leads next final) :
    machine.Leads state final := by
  obtain ⟨trace, run⟩ := further
  exact ⟨_, (Run.single taken).append run⟩

/-- Runs are put together end to end. -/
theorem Leads.trans {state middle final : State} (first : machine.Leads state middle)
    (second : machine.Leads middle final) : machine.Leads state final := by
  obtain ⟨_, run⟩ := first
  obtain ⟨_, further⟩ := second
  exact ⟨_, run.append further⟩

/-- Steps that keep a property and make the state smaller lead to rest. -/
theorem leads_to_rest {allowed : Label → Prop} {size : State → Nat} {holds rest : State → Prop}
    (progress : ∀ state, holds state → ¬ rest state → ∃ label next, allowed label ∧
      machine.step state label = some next ∧ holds next ∧ size next < size state)
    (state : State) (initially : holds state) :
    ∃ trace final, machine.Run state trace final ∧ (∀ taken ∈ trace, allowed taken.2) ∧
      rest final := by
  induction bound : size state using Nat.strongRecOn generalizing state with
  | ind bound ih =>
      subst bound
      by_cases settled : rest state
      · exact ⟨[], state, .nil, fun _ member => absurd member List.not_mem_nil, settled⟩
      · obtain ⟨label, next, allows, taken, further, smaller⟩ := progress state initially settled
        obtain ⟨trace, final, run, only, settled⟩ := ih (size next) smaller next further rfl
        refine ⟨_, final, (Run.single taken).append run, ?_, settled⟩
        intro step member
        rcases List.mem_append.mp member with first | later
        · obtain rfl := List.mem_singleton.mp first
          exact allows
        · exact only step later

/-- One label taken again and again, while it makes the state smaller, ends at rest. -/
theorem run_to_rest {label : Label} {size : State → Nat} {rest : State → Prop}
    (progress : ∀ state, ¬ rest state →
      ∃ next, machine.step state label = some next ∧ size next < size state) (state : State) :
    ∃ trace final, machine.Run state trace final ∧ (∀ taken ∈ trace, taken.2 = label) ∧
      rest final := by
  refine @leads_to_rest _ _ machine (· = label) size (fun _ => True) rest ?_ state trivial
  intro state _ unsettled
  obtain ⟨next, taken, smaller⟩ := progress state unsettled
  exact ⟨label, next, rfl, taken, trivial, smaller⟩

/-- Take the given labels one after another. -/
def exec (machine : Machine State Label) : State → List Label → Option State
  | state, [] => some state
  | state, label :: rest => (machine.step state label).bind fun next => machine.exec next rest

/-- The states and labels met by `exec`. -/
def traceOf (machine : Machine State Label) : State → List Label → List (State × Label)
  | _, [] => []
  | state, label :: rest =>
      (state, label) :: (match machine.step state label with
        | some next => machine.traceOf next rest
        | none => [])

/-- Executing labels is a run. -/
theorem run_of_exec {start state : State} {labels : List Label}
    (executed : machine.exec start labels = some state) :
    machine.Run start (machine.traceOf start labels) state := by
  induction labels generalizing start with
  | nil =>
      cases executed
      exact .nil
  | cons label rest ih =>
      simp only [exec, Option.bind_eq_some_iff] at executed
      obtain ⟨next, taken, further⟩ := executed
      simpa [traceOf, taken] using (Run.single taken).append (ih further)

/-- Executing labels up to a state that passes a check is a run to such a state. -/
theorem run_of_exec_any (start : State) (labels : List Label) (check : State → Bool)
    (executed : (machine.exec start labels).any check) :
    ∃ state, machine.Run start (machine.traceOf start labels) state ∧ check state := by
  cases final : machine.exec start labels with
  | none => simp [final] at executed
  | some state => exact ⟨state, run_of_exec final, by simpa [final] using executed⟩

end Machine

end Base
