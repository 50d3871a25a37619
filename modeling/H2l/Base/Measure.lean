import H2l.Base.Machine

/-!
# Runs that come to rest

What the steps of a run spend is paid from the size of the states and from what the steps
earn: `Run.account` is that of a whole run. Labels whose steps all make the state
smaller are taken only so often, in whatever order (`Run.length_add_size_le`), and
`leads_to_atRest` says that such runs end where no step of them is left.
-/

namespace Base

/-- The size of a list, item by item. -/
def total {α : Type} (size : α → Nat) : List α → Nat
  | [] => 0
  | item :: items => size item + total size items

section Total

variable {α : Type} (size : α → Nat)

@[simp] theorem total_cons (item : α) (items : List α) :
    total size (item :: items) = size item + total size items := rfl

@[simp] theorem total_append (first second : List α) :
    total size (first ++ second) = total size first + total size second := by
  induction first with
  | nil => simp [total]
  | cons item items ih =>
      simp only [List.cons_append, total_cons, ih]
      omega

/-- Items of one size. -/
theorem total_const (each : Nat) (items : List α) :
    total (fun _ => each) items = each * items.length := by
  induction items with
  | nil => rfl
  | cons item items ih => rw [total_cons, ih, List.length_cons, Nat.mul_succ, Nat.add_comm]

/-- No member exceeds the total. -/
theorem le_total {item : α} {items : List α} (member : item ∈ items) :
    size item ≤ total size items := by
  induction member with
  | head => exact Nat.le_add_right _ _
  | tail _ _ ih => exact Nat.le_trans ih (Nat.le_add_left _ _)

/-- A new item in the place of an old one changes the size by their difference. -/
theorem total_set {items : List α} {index : Nat} {old : α} (found : items[index]? = some old)
    (new : α) : total size (items.set index new) + size old = total size items + size new := by
  induction items generalizing index with
  | nil => cases found
  | cons item items ih =>
      cases index with
      | zero =>
          simp only [List.getElem?_cons_zero, Option.some.injEq] at found
          subst found
          simp only [List.set_cons_zero, total_cons]
          omega
      | succ index =>
          have rest := ih found
          simp only [List.set_cons_succ, total_cons]
          omega

end Total

namespace Machine

variable {State Label : Type} {machine : Machine State Label}

/-- Every step of these labels makes the state smaller. -/
def Shrinks (machine : Machine State Label) (allowed : Label → Prop) (size : State → Nat) : Prop :=
  ∀ {state label next}, allowed label → machine.step state label = some next →
    size next < size state

/-- Where the guard holds, a step keeps what its payment rests on, and spends no more than the
state loses in size and the step earns. -/
def Pays (machine : Machine State Label) (guard : State → Label → Prop) (holds : State → Prop)
    (spent earned : Label → Nat) (size : State → Nat) : Prop :=
  ∀ {state label next}, holds state → guard state label →
    machine.step state label = some next →
      holds next ∧ spent label + size next ≤ size state + earned label

/-- No step of these labels is left. -/
def AtRest (machine : Machine State Label) (allowed : Label → Prop) (state : State) : Prop :=
  ∀ label, allowed label → machine.step state label = none

/-- A run spends no more than it starts with and earns. -/
theorem Run.account {guard : State → Label → Prop} {holds : State → Prop}
    {spent earned : Label → Nat} {size : State → Nat} {start state : State}
    {trace : List (State × Label)} (pays : machine.Pays guard holds spent earned size)
    (run : machine.Run start trace state) (guarded : Guarded guard trace)
    (initially : holds start) :
    holds state ∧ total (fun taken => spent taken.2) trace + size state ≤
      size start + total (fun taken => earned taken.2) trace := by
  induction run with
  | nil => exact ⟨initially, by simp [total]⟩
  | snoc prior taken ih =>
      obtain ⟨earlier, last⟩ := guarded_snoc_iff.mp guarded
      obtain ⟨before, paid⟩ := ih earlier
      obtain ⟨after, step⟩ := pays before last taken
      refine ⟨after, ?_⟩
      simp only [total_append, total, Nat.add_zero]
      omega

/-- A run whose steps all make the state smaller is short. -/
theorem Run.length_add_size_le {allowed : Label → Prop} {size : State → Nat} {start state : State}
    {trace : List (State × Label)} (shrinks : machine.Shrinks allowed size)
    (run : machine.Run start trace state) (only : ∀ taken ∈ trace, allowed taken.2) :
    trace.length + size state ≤ size start := by
  have pays : machine.Pays (fun _ label => allowed label) (fun _ => True) (fun _ => 1)
      (fun _ => 0) size := by
    intro state label next _ allows taken
    have smaller := shrinks allows taken
    exact ⟨trivial, by dsimp only; omega⟩
  have account := (run.account pays only trivial).2
  rwa [total_const, total_const, Nat.one_mul, Nat.zero_mul, Nat.add_zero] at account

/-- Steps that make the state smaller end where none of them is left. -/
theorem leads_to_atRest {allowed : Label → Prop} {size : State → Nat}
    (shrinks : machine.Shrinks allowed size) (state : State) :
    ∃ trace final, machine.Run state trace final ∧ (∀ taken ∈ trace, allowed taken.2) ∧
      machine.AtRest allowed final := by
  refine @leads_to_rest _ _ machine allowed size (fun _ => True) _ ?_ state trivial
  intro state _ busy
  simp only [AtRest, Classical.not_forall] at busy
  obtain ⟨label, allows, steps⟩ := busy
  obtain ⟨next, taken⟩ := Option.ne_none_iff_exists'.mp steps
  exact ⟨label, next, allows, taken, trivial, shrinks allows taken⟩

end Machine

end Base
