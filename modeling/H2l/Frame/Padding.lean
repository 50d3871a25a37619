import H2l.Frame.Data

/-!
# Padding of received DATA frames

A padded payload is the pad length, the application data and as many bytes of
padding. `Data.load` checks the pad length and records it, but keeps the whole
payload, so the accessors return the padding with the data
(`paddingRemoved_iff`).
-/

namespace H2l

open Base

/-- A pad length in front, less than the length of the payload. -/
def ValidPadding (payload : List Byte) : Prop :=
  ∃ padLen rest, payload = padLen :: rest ∧ padLen.toNat < payload.length

/-- What the application is meant to see of a payload. -/
def applicationData (padded : Bool) (payload : List Byte) : List Byte :=
  match padded, payload with
  | true, padLen :: rest => rest.take (rest.length - padLen.toNat)
  | _, payload => payload

/-- Loading accepts the valid payloads, and every accessor leaves the padding out. -/
structure PaddingRemoved (head : Head) (payload : List Byte) : Prop where
  accepted : (Data.load head payload).isOk ↔
    (DataFlags.load head.flags).isPadded = false ∨ ValidPadding payload
  removed : ∀ frame, Data.load head payload = .ok frame →
    let data := applicationData (DataFlags.load head.flags).isPadded payload
    frame.payload = data ∧ frame.intoPayload = data ∧ frame.asBytes = data ∧
      frame.len = data.length ∧ frame.isEmpty = data.isEmpty

/-- The check accepts exactly the valid payloads. -/
theorem checkPadding_isOk_iff (payload : List Byte) :
    (Data.checkPadding payload).isOk ↔ ValidPadding payload := by
  cases payload with
  | nil => simp [Data.checkPadding, ValidPadding, Except.isOk, Except.toBool]
  | cons padLen rest =>
      by_cases fits : padLen.toNat < (padLen :: rest).length
      · have checked : Data.checkPadding (padLen :: rest) = .ok padLen :=
          if_neg (Nat.not_le.mpr fits)
        exact iff_of_true (by rw [checked]; rfl) ⟨padLen, rest, rfl, fits⟩
      · have rejected : Data.checkPadding (padLen :: rest) = .error .tooMuchPadding :=
          if_pos (Nat.not_lt.mp fits)
        refine iff_of_false (by rw [rejected]; simp [Except.isOk, Except.toBool]) ?_
        rintro ⟨padLen', rest', same, fits'⟩
        cases same
        exact fits fits'

/-- On a stream, loading accepts exactly the plain and the validly padded payloads. -/
theorem data_load_isOk_iff {head : Head} (stream : head.streamId.isZero = false)
    (payload : List Byte) :
    (Data.load head payload).isOk ↔
      (DataFlags.load head.flags).isPadded = false ∨ ValidPadding payload := by
  rw [← checkPadding_isOk_iff]
  unfold Data.load
  rw [dif_neg (by simp [stream])]
  by_cases padded : (DataFlags.load head.flags).isPadded
  · rw [dif_pos padded]
    cases Data.checkPadding payload with
    | ok padLen => simp [Except.isOk, Except.toBool]
    | error error => simp [padded, Except.isOk, Except.toBool]
  · rw [dif_neg padded]
    simp [Bool.eq_false_iff.mpr padded, Except.isOk, Except.toBool]

/-- The pad length alone makes the data shorter than the payload. -/
theorem applicationData_ne {payload : List Byte} (valid : ValidPadding payload) :
    applicationData true payload ≠ payload := by
  obtain ⟨padLen, rest, rfl, -⟩ := valid
  intro same
  have lengths := congrArg List.length same
  simp only [applicationData, List.length_take, List.length_cons] at lengths
  omega

/-- The padding is left out exactly where there is none to leave out. -/
theorem paddingRemoved_iff {head : Head} (stream : head.streamId.isZero = false)
    (payload : List Byte) :
    PaddingRemoved head payload ↔
      ((DataFlags.load head.flags).isPadded → ¬ ValidPadding payload) := by
  have accepted := data_load_isOk_iff stream payload
  constructor
  · intro removed padded valid
    cases loaded : Data.load head payload with
    | error error =>
        have accepts := accepted.mpr (.inr valid)
        rw [loaded] at accepts
        cases accepts
    | ok frame =>
        have same := (removed.removed frame loaded).1
        rw [Data.payload, (Data.load_eq_ok loaded).2.1, padded] at same
        exact applicationData_ne valid same.symm
  · intro plain
    refine ⟨accepted, fun frame loaded => ?_⟩
    have unpadded : (DataFlags.load head.flags).isPadded = false := by
      cases padded : (DataFlags.load head.flags).isPadded with
      | false => rfl
      | true =>
          have valid := (accepted.mp (by rw [loaded]; rfl)).resolve_left (by simp [padded])
          exact absurd valid (plain padded)
    have kept : frame.data = payload := (Data.load_eq_ok loaded).2.1
    simp only [unpadded, applicationData, Data.payload, Data.intoPayload, Data.asBytes, Data.len,
      Data.isEmpty, kept, and_self]

/-- Two bytes of data and one of padding, on stream one. -/
def paddedHead : Head := ⟨.data, 0x8, ⟨1⟩⟩

/-- The accessors return the pad length and the padding with the data. -/
theorem padded_not_removed : ¬ PaddingRemoved paddedHead [1, 0x68, 0x69, 0] := by
  intro removed
  obtain ⟨frame, loaded⟩ : ∃ frame, Data.load paddedHead [1, 0x68, 0x69, 0] = .ok frame := ⟨_, rfl⟩
  have same := (removed.removed frame loaded).1
  rw [Data.payload, (Data.load_eq_ok loaded).2.1] at same
  revert same
  decide

/-- Without padding the data is the payload. -/
theorem plain_removed : PaddingRemoved ⟨.data, 0x1, ⟨1⟩⟩ [0x68, 0x69] :=
  (paddingRemoved_iff (by decide) _).mpr fun padded => absurd padded (by decide)

end H2l
