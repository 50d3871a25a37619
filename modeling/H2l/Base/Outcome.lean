/-!
# Results of fallible code that may also panic

`Outcome` is the result of a function that returns a value, returns an error,
or unwinds. `Panic` names the construct that unwound.
-/

namespace Base

/-- The construct whose failure unwinds a task. -/
inductive Panic where
  | unreachable
  | assertion
  | slice
  | unwrap
deriving DecidableEq, Repr

/-- A value, an error, or a panic. -/
inductive Outcome (ε α : Type) where
  | ok (value : α)
  | err (error : ε)
  | panic (cause : Panic)
deriving DecidableEq, Repr

namespace Outcome

variable {ε α β : Type}

/-- A result that cannot panic. -/
def ofExcept : Except ε α → Outcome ε α
  | .ok value => .ok value
  | .error error => .err error

/-- The result of a check that reports what is wrong. -/
def ofError : Option ε → Outcome ε Unit
  | none => .ok ()
  | some error => .err error

/-- Change the value, if there is one. -/
def map (f : α → β) : Outcome ε α → Outcome ε β
  | .ok value => .ok (f value)
  | .err error => .err error
  | .panic cause => .panic cause

/-- There is a value. -/
def isOk : Outcome ε α → Bool
  | .ok _ => true
  | _ => false

@[simp] theorem ofExcept_ok (value : α) : ofExcept (.ok value : Except ε α) = .ok value := rfl

@[simp] theorem ofExcept_error (error : ε) :
    ofExcept (.error error : Except ε α) = .err error := rfl

/-- The error of an outcome can be read off it. -/
@[simp] theorem ofError_inj {left right : Option ε} :
    ofError left = ofError right ↔ left = right := by
  cases left <;> cases right <;> simp [ofError]

@[simp] theorem map_ok (f : α → β) (value : α) :
    (Outcome.ok value : Outcome ε α).map f = .ok (f value) := rfl

@[simp] theorem map_err (f : α → β) (error : ε) :
    (Outcome.err error : Outcome ε α).map f = .err error := rfl

@[simp] theorem map_panic (f : α → β) (cause : Panic) :
    (Outcome.panic cause : Outcome ε α).map f = .panic cause := rfl

/-- Mapping the value keeps success and failure. -/
theorem isOk_map_ofExcept (f : α → β) (result : Except ε α) :
    ((ofExcept result).map f).isOk = result.isOk := by
  cases result <;> rfl

/-- A checked result does not panic. -/
@[simp] theorem map_ofExcept_ne_panic (f : α → β) (result : Except ε α) (cause : Panic) :
    (ofExcept result).map f ≠ .panic cause := by
  cases result <;> simp

end Outcome

end Base
