/-!
# Flag sets in a machine word

A `FlagSet all` is a word whose bits lie among the declared flags `all`. The
bound is a field, so a set with an undeclared flag cannot be built; the
operations keep it.
-/

namespace Base

/-- A set of flags among those declared in `all`. -/
structure FlagSet {w : Nat} (all : BitVec w) where
  bits : BitVec w
  declared : bits &&& all = bits
deriving DecidableEq

namespace FlagSet

variable {w : Nat} {all : BitVec w}

/-- Sets are equal exactly when their words are. -/
@[ext] theorem ext {left right : FlagSet all} (bits : left.bits = right.bits) : left = right := by
  cases left
  cases right
  cases bits
  rfl

/-- No flag is set. -/
def empty : FlagSet all := ⟨0, by simp⟩

/-- The declared flags of an arbitrary word; the other bits are dropped. -/
def truncate (all bits : BitVec w) : FlagSet all :=
  ⟨bits &&& all, by rw [BitVec.and_assoc, BitVec.and_self]⟩

/-- The flags of both. -/
def union (left right : FlagSet all) : FlagSet all :=
  ⟨left.bits ||| right.bits, by
    have distributed : (left.bits ||| right.bits) &&& all =
        left.bits &&& all ||| right.bits &&& all := by
      ext index
      simp [Bool.and_or_distrib_right]
    rw [distributed, left.declared, right.declared]⟩

/-- Take the flags of `right` away. -/
def remove (left right : FlagSet all) : FlagSet all :=
  ⟨left.bits &&& ~~~right.bits, by
    rw [BitVec.and_assoc, BitVec.and_comm (~~~right.bits), ← BitVec.and_assoc, left.declared]⟩

/-- Every flag of `right` is in the set. -/
def contains (set right : FlagSet all) : Bool := set.bits &&& right.bits == right.bits

/-- Some flag of `right` is in the set. -/
def intersects (set right : FlagSet all) : Bool := set.bits &&& right.bits != 0

@[simp] theorem empty_bits : (empty : FlagSet all).bits = 0 := rfl

@[simp] theorem union_bits (left right : FlagSet all) :
    (left.union right).bits = left.bits ||| right.bits := rfl

@[simp] theorem remove_bits (left right : FlagSet all) :
    (left.remove right).bits = left.bits &&& ~~~right.bits := rfl

/-- Storing a set's word and reading it back changes nothing. -/
@[simp] theorem truncate_self (set : FlagSet all) : truncate all set.bits = set :=
  ext set.declared

/-- Containment, flag by flag. -/
theorem contains_iff {set flag : FlagSet all} : set.contains flag ↔
    ∀ index (bound : index < w), flag.bits[index] = true → set.bits[index] = true := by
  rw [contains, beq_iff_eq]
  constructor
  · intro among index bound flagged
    have here := congrArg (fun bits : BitVec w => bits[index]) among
    simpa [flagged] using here
  · intro has
    ext index bound
    rw [BitVec.getElem_and]
    cases flagged : flag.bits[index] with
    | false => rw [Bool.and_false]
    | true => rw [has index bound flagged, Bool.and_true]

/-- Every set is part of itself. -/
@[simp] theorem contains_self (set : FlagSet all) : set.contains set :=
  contains_iff.mpr fun _ _ flagged => flagged

/-- Inclusion of sets is transitive. -/
theorem contains_trans {first second third : FlagSet all} (outer : first.contains second)
    (inner : second.contains third) : first.contains third :=
  contains_iff.mpr fun index bound flagged =>
    contains_iff.mp outer index bound (contains_iff.mp inner index bound flagged)

/-- A contained set is a smaller number. -/
theorem toNat_le_of_contains {set flag : FlagSet all} (has : set.contains flag) :
    flag.bits.toNat ≤ set.bits.toNat := by
  simp only [contains, beq_iff_eq] at has
  rw [← has, BitVec.toNat_and]
  exact Nat.and_le_left

/-- What was added is there. -/
theorem contains_union_right (set flag : FlagSet all) : (set.union flag).contains flag := by
  apply contains_iff.mpr
  intro index bound flagged
  rw [union_bits, BitVec.getElem_or, flagged, Bool.or_true]

/-- Adding flags takes none away. -/
theorem contains_union_left {set flag : FlagSet all} (added : FlagSet all)
    (has : set.contains flag) : (set.union added).contains flag := by
  apply contains_iff.mpr
  intro index bound flagged
  rw [union_bits, BitVec.getElem_or, contains_iff.mp has index bound flagged, Bool.true_or]

/-- Adding other flags does not add this one. -/
theorem contains_union_of_disjoint (set : FlagSet all) {added flag : FlagSet all}
    (apart : added.bits &&& flag.bits = 0) :
    (set.union added).contains flag = set.contains flag := by
  have distributed : (set.bits ||| added.bits) &&& flag.bits =
      set.bits &&& flag.bits ||| added.bits &&& flag.bits := by
    ext index
    simp [Bool.and_or_distrib_right]
  have nothing : added.bits &&& flag.bits = 0#w := apart
  simp only [contains, union_bits, distributed, nothing, BitVec.or_zero]

/-- Taking flags away also takes what was added among them. -/
theorem remove_union_of_contains (set : FlagSet all) {added flag : FlagSet all}
    (among : flag.contains added) : (set.union added).remove flag = set.remove flag := by
  ext index bound
  have within := contains_iff.mp among index bound
  simp only [remove_bits, union_bits, BitVec.getElem_and, BitVec.getElem_or, BitVec.getElem_not]
  cases here : added.bits[index] with
  | false => rw [Bool.or_false]
  | true => rw [within here, Bool.not_true, Bool.and_false, Bool.and_false]

/-- A flag that meets what is added meets the result. -/
theorem intersects_union_right (set : FlagSet all) {added flag : FlagSet all}
    (meets : added.intersects flag) : (set.union added).intersects flag := by
  simp only [intersects, union_bits, bne_iff_ne, ne_eq] at meets ⊢
  intro apart
  refine meets ?_
  ext index bound
  have here := congrArg (fun bits : BitVec w => bits[index]) apart
  simp only [BitVec.getElem_and, BitVec.getElem_or] at here ⊢
  revert here
  cases added.bits[index] <;> cases flag.bits[index] <;> simp

end FlagSet

end Base
