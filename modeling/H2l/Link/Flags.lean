import H2l.Link.Read

/-!
# The flags word of a link

`Link::add_flags` starts from what `Link::flags` returns, and that decodes the word by an exact
match: combinations outside the match read as no flags. Over a sequence of calls the flags
accumulate exactly as long as their combination is decoded (`accumulates_iff`).
-/

namespace H2l

open Base

namespace Link

/-- The word stored by `set_flags`. -/
def setFlags (val : LinkFlags) : Word := val.bits

/-- The word stored by `clear_flags`. -/
def clearFlags : Word := 0

end Link

/-- A call that stores the flags of a link. -/
inductive FlagsCall where
  | addFlags (val : LinkFlags)
  | setFlags (val : LinkFlags)
  | clearFlags
deriving DecidableEq

namespace FlagsCall

/-- The word after the call. -/
def store (word : Word) : FlagsCall → Word
  | addFlags val => Link.addFlags val word
  | setFlags val => Link.setFlags val
  | clearFlags => Link.clearFlags

/-- The flags that the call is to leave. -/
def accumulate (kept : LinkFlags) : FlagsCall → LinkFlags
  | addFlags val => kept.union val
  | setFlags val => val
  | clearFlags => .empty

end FlagsCall

namespace Link

/-- The word after calls on a new link. -/
def storedWord (calls : List FlagsCall) : Word := calls.foldl FlagsCall.store 0

/-- The value last set, with the values that were added since. -/
def accumulated (calls : List FlagsCall) : LinkFlags :=
  calls.foldl FlagsCall.accumulate .empty

/-- The flags of the link are those accumulated, and a last `add_flags` dropped none. -/
structure Accumulates (calls : List FlagsCall) : Prop where
  flags : flags (storedWord calls) = accumulated calls
  kept : ∀ before val, calls = before ++ [.addFlags val] →
    FlagSet.contains (Link.flags (storedWord calls)) (Link.flags (storedWord before))

/-- The combinations in the match of `Link::flags`, and no flags. -/
def Decoded (set : LinkFlags) : Prop :=
  FlagSet.contains LinkFlags.readWriteClosed set ∨ FlagSet.contains LinkFlags.attached set ∨
    FlagSet.contains LinkFlags.detached set

instance (set : LinkFlags) : Decidable (Decoded set) := inferInstanceAs (Decidable (_ ∨ _))

/-- Fewer flags are decoded too. -/
theorem Decoded.of_union {first second : LinkFlags} (decoded : Decoded (first.union second)) :
    Decoded first := by
  have among : FlagSet.contains (first.union second) first :=
    FlagSet.contains_union_left second first.contains_self
  rcases decoded with closed | attached | detached
  · exact .inl (FlagSet.contains_trans closed among)
  · exact .inr (.inl (FlagSet.contains_trans attached among))
  · exact .inr (.inr (FlagSet.contains_trans detached among))

/-- Only combinations in the match are returned. -/
theorem decoded_flags (word : Word) : Decoded (flags word) := by
  unfold flags
  repeat' split
  all_goals decide

/-- Combinations in the match are read as they were stored. -/
theorem flags_of_decoded {set : LinkFlags} (decoded : Decoded set) : flags set.bits = set := by
  have small : set.bits.toNat < 9 := by
    rcases decoded with among | among | among
    all_goals exact Nat.lt_of_le_of_lt (FlagSet.toNat_le_of_contains among) (by decide)
  have reads : ∀ index : Fin 9, ∀ declared,
      Decoded ⟨BitVec.ofNat 32 index.val, declared⟩ →
      flags (BitVec.ofNat 32 index.val) = ⟨BitVec.ofNat 32 index.val, declared⟩ := by decide
  obtain ⟨bits, declared⟩ := set
  have word : BitVec.ofNat 32 bits.toNat = bits := by rw [BitVec.ofNat_toNat, BitVec.setWidth_eq]
  have here := reads ⟨bits.toNat, small⟩
  simp only [word] at here
  exact here declared decoded

variable {word : Word} {kept : LinkFlags}

/-- One call keeps the word in step with the flags, as long as they are decoded. -/
theorem flags_store (agrees : Decoded kept → flags word = kept) (call : FlagsCall) :
    Decoded (call.accumulate kept) → flags (call.store word) = call.accumulate kept := by
  intro decoded
  cases call with
  | addFlags val =>
      have before : flags word = kept := agrees decoded.of_union
      simp only [FlagsCall.store, addFlags, before]
      exact flags_of_decoded decoded
  | setFlags val => exact flags_of_decoded decoded
  | clearFlags => exact flags_of_decoded decoded

/-- Where what was accumulated decodes, the word and the flags agree after any calls. -/
theorem flags_foldl (agrees : Decoded kept → flags word = kept) (calls : List FlagsCall) :
    Decoded (calls.foldl FlagsCall.accumulate kept) →
      flags (calls.foldl FlagsCall.store word) = calls.foldl FlagsCall.accumulate kept := by
  induction calls generalizing word kept with
  | nil => exact agrees
  | cons call rest ih => exact ih (flags_store agrees call)

/-- So they do from the word of a new link. -/
theorem flags_storedWord {calls : List FlagsCall} (decoded : Decoded (accumulated calls)) :
    flags (storedWord calls) = accumulated calls :=
  flags_foldl (fun _ => rfl) calls decoded

/-- The flags of a link accumulate exactly when their combination is one that is decoded. -/
theorem accumulates_iff (calls : List FlagsCall) :
    Accumulates calls ↔ Decoded (accumulated calls) := by
  constructor
  · intro accumulates
    rw [← accumulates.flags]
    exact decoded_flags _
  · intro decoded
    refine ⟨flags_storedWord decoded, ?_⟩
    rintro before val rfl
    have whole := flags_storedWord decoded
    have split : accumulated (before ++ [.addFlags val]) = (accumulated before).union val := by
      rw [accumulated, List.foldl_append]
      rfl
    rw [split] at decoded whole
    rw [whole, flags_storedWord decoded.of_union]
    exact FlagSet.contains_union_left val (FlagSet.contains_self _)

/-- Attaching a link whose reader has closed loses both flags. -/
theorem attachedClosed_lost : ¬ ∀ calls, Accumulates calls := by
  intro accumulates
  have lost := (accumulates [.addFlags .readClosed, .addFlags .attached]).flags
  revert lost
  decide

end Link

end H2l
