/-!
# Assignments to keys

A list of assignments gives values to keys, and a later assignment replaces an earlier one.
`lastValue` is the value that a key is left with; a fold that stores each value under its
key reads back that value (`foldl_lastValue`).
-/

namespace Base

variable {κ α β σ : Type} [DecidableEq κ]

/-- The value of the last assignment to a key. -/
def lastValue (key : κ) (assignments : List (κ × α)) : Option α :=
  ((assignments.filter fun assignment => assignment.1 = key).getLast?).map Prod.snd

@[simp] theorem lastValue_nil (key : κ) : lastValue key ([] : List (κ × α)) = none := rfl

/-- An entry counts only if no later one has its key. -/
theorem lastValue_cons (key : κ) (first : κ × α) (rest : List (κ × α)) :
    lastValue key (first :: rest) =
      (lastValue key rest).or (if first.1 = key then some first.2 else none) := by
  by_cases same : first.1 = key
  · simp [lastValue, same, List.getLast?_cons]
  · simp [lastValue, same]

/-- The last value was assigned. -/
theorem mem_of_lastValue {key : κ} {assignments : List (κ × α)} {value : α}
    (last : lastValue key assignments = some value) : (key, value) ∈ assignments := by
  obtain ⟨assignment, found, rfl⟩ := Option.map_eq_some_iff.mp last
  have kept := List.mem_filter.mp (List.mem_of_getLast? found)
  obtain rfl : assignment.1 = key := by simpa using kept.2
  exact kept.1

/-- Only the assignments to the key itself matter. -/
theorem lastValue_congr {key : κ} {first second : List (κ × α)}
    (same : (first.filter fun assignment => assignment.1 = key) =
      second.filter fun assignment => assignment.1 = key) :
    lastValue key first = lastValue key second := by
  rw [lastValue, same, lastValue]

/-- A key that is assigned one value at most has that value. -/
theorem lastValue_eq_of_mem_iff {key : κ} {assignments : List (κ × α)} {value : Option α}
    (members : ∀ val, (key, val) ∈ assignments ↔ value = some val) :
    lastValue key assignments = value := by
  cases last : lastValue key assignments with
  | some val => exact ((members val).mp (mem_of_lastValue last)).symm
  | none =>
      have absent : ∀ key' val, (key', val) ∈ assignments → ¬ key' = key := by
        simpa [lastValue] using last
      cases value with
      | none => rfl
      | some val => exact absurd rfl (absent key val ((members val).mpr rfl))

/-- A fold that stores each value under its key reads back the last one. -/
theorem foldl_lastValue {store : σ → κ × α → σ} {read : σ → β} {shown : α → β} {key : κ}
    (reads : ∀ state assignment, read (store state assignment) =
      if assignment.1 = key then shown assignment.2 else read state)
    (assignments : List (κ × α)) (state : σ) :
    read (assignments.foldl store state) =
      ((lastValue key assignments).map shown).getD (read state) := by
  induction assignments generalizing state with
  | nil => rfl
  | cons first rest ih =>
      rw [List.foldl_cons, ih, reads, lastValue_cons]
      cases lastValue key rest with
      | some value => rfl
      | none => by_cases same : first.1 = key <;> simp [same]

end Base
