import H2l.Frame.Basic

/-!
# Frame headers in both directions

A header is read as it was written, and written back as it was read but for the reserved bit.
This fails at the one kind that is written and that the table of codes leaves out
(`headerCodec_iff`).
-/

namespace H2l

open Base

namespace StreamId

/-- Clearing the reserved bit of a word and of its bytes. -/
theorem cleared_be32 {bytes : List Byte} (four : bytes.length = 4) :
    (be32 bytes &&& ~~~mask).toNat = beNat (clearTop bytes) := by
  obtain ⟨byte, rest, rfl⟩ := List.exists_cons_of_length_eq_add_one four
  have three : rest.length = 3 := by simpa using four
  rw [cleared_toNat, be32_toNat four, beNat_clearTop, three, ← Nat.pow_mul 2 8 3, ← Nat.pow_add]

/-- A word written with its reserved bit masked out. -/
theorem put32_cleared {bytes : List Byte} (four : bytes.length = 4) :
    put32 (be32 bytes &&& ~~~mask) = clearTop bytes := by
  have same : (clearTop bytes).length = 4 := by rw [clearTop_length, four]
  rw [put32, cleared_be32 four, ← same, toBe_beNat]

end StreamId

/-- The kind of a frame that is written. -/
def Kind.Emitted (kind : Kind) : Prop :=
  ∃ frame : Frame, ∃ head, frame.head = some head ∧ head.kind = kind

/-- Every kind is written but those that no frame has. -/
theorem Kind.emitted_iff (kind : Kind) :
    kind.Emitted ↔ kind ≠ .pushPromise ∧ kind ≠ .ping ∧ kind ≠ .unknown := by
  constructor
  · rintro ⟨frame, head, written, rfl⟩
    cases frame with
    | unknown => cases written
    | _ => cases written; exact ⟨nofun, nofun, nofun⟩
  · rintro ⟨notPromise, notPing, notUnknown⟩
    cases kind with
    | data => exact ⟨.data ⟨⟨1⟩, [], .empty, none, rfl, rfl⟩, _, rfl, rfl⟩
    | headers => exact ⟨.withHeaders ⟨1⟩ [], _, rfl, rfl⟩
    | priority => exact ⟨.priority ⟨⟨1⟩, ⟨⟨0⟩, 0, false⟩⟩, _, rfl, rfl⟩
    | reset => exact ⟨.reset ⟨⟨1⟩, ⟨0⟩⟩, _, rfl, rfl⟩
    | settings => exact ⟨.settings .default, _, rfl, rfl⟩
    | pushPromise => exact absurd rfl notPromise
    | ping => exact absurd rfl notPing
    | goAway => exact ⟨.goAway ⟨⟨0⟩, ⟨0⟩⟩, _, rfl, rfl⟩
    | windowUpdate => exact ⟨.windowUpdate ⟨⟨0⟩, 1⟩, _, rfl, rfl⟩
    | continuation => exact ⟨.continuation ⟨⟨1⟩, []⟩, _, rfl, rfl⟩
    | binCode => exact ⟨.binCode ⟨⟨1⟩, .empty, []⟩, _, rfl, rfl⟩
    | unknown => exact absurd rfl notUnknown

instance (kind : Kind) : Decidable kind.Emitted := decidable_of_iff _ kind.emitted_iff.symm

namespace Head

/-- The header and the length before it are read as they were written. -/
structure ReadsBack (head : Head) (payloadLen : Nat) : Prop where
  parsed : parse (head.encode payloadLen) = head
  length : payloadLength (head.encode payloadLen) = payloadLen

/-- The header is written as it was read, with the reserved bit cleared. -/
def WritesBack (header : List Byte) : Prop :=
  (parse header).encode (payloadLength header) = header.take 5 ++ clearTop (header.drop 5)

/-- Valid headers of a listed kind are read back. -/
theorem parse_encode_of_valid {head : Head} (other : head.kind ≠ .binCode)
    (valid : head.streamId.Valid) (payloadLen : Nat) (rest : List Byte) :
    parse (head.encode payloadLen ++ rest) = head := by
  rw [parse_encode, Kind.new_code, if_neg other, StreamId.cleared_of_lt valid]

/-- Splitting what is written after the nine bytes of its header. -/
theorem parse_take {head : Head} (other : head.kind ≠ .binCode) (valid : head.streamId.Valid)
    (payloadLen : Nat) (payload : List Byte) :
    parse ((head.encode payloadLen ++ payload).take 9) = head := by
  rw [List.take_left' (encode_length _ _), ← List.append_nil (head.encode payloadLen),
    parse_encode_of_valid other valid]

/-- Behind the nine bytes of its header the payload begins. -/
theorem drop_encode (head : Head) (payloadLen : Nat) (payload : List Byte) :
    (head.encode payloadLen ++ payload).drop 9 = payload :=
  List.drop_left' (encode_length _ _)

/-- A header of a valid stream and length is read back, but for the kind without a code of its
own. -/
theorem readsBack_iff {head : Head} {payloadLen : Nat} (valid : head.streamId.Valid)
    (sized : payloadLen < 2 ^ 24) : head.ReadsBack payloadLen ↔ head.kind ≠ .binCode := by
  have parsed : parse (head.encode payloadLen) = { head with kind := Kind.new head.kind.code } := by
    have read := parse_encode head payloadLen []
    rwa [List.append_nil, StreamId.cleared_of_lt valid] at read
  have length : payloadLength (head.encode payloadLen) = payloadLen := by
    have read := payloadLength_encode head payloadLen []
    rwa [List.append_nil, Nat.mod_eq_of_lt sized] at read
  constructor
  · rintro ⟨reads, -⟩ is
    have kinds : Kind.new head.kind.code = head.kind := congrArg Head.kind (parsed.symm.trans reads)
    rw [is] at kinds
    cases kinds
  · intro other
    refine ⟨?_, length⟩
    rw [parsed, Kind.new_code, if_neg other]

/-- A header is its length, the code of its kind, its flags and its stream. -/
theorem encode_parse {header : List Byte} (nine : header.length = 9) :
    (parse header).encode (payloadLength header) =
      header.take 3 ++ (Kind.new (header.getD 3 0)).code :: header.getD 4 0 ::
        clearTop (header.drop 5) := by
  have three : (header.take 3).length = 3 := by simp [nine]
  have four : ((header.drop 5).take 4).length = 4 := by simp [nine]
  have all : (header.drop 5).take 4 = header.drop 5 := List.take_of_length_le (by simp [nine])
  have length : toBe 3 (beNat (header.take 3)) = header.take 3 := by
    have whole := toBe_beNat (header.take 3)
    rwa [three] at whole
  simp only [encode, parse, payloadLength, StreamId.parse, length]
  rw [StreamId.put32_cleared four, all]
  simp

/-- A header of a kind that is written comes back as it was read, with the same exception. -/
theorem writesBack_iff {header : List Byte} (nine : header.length = 9) {kind : Kind}
    (is : header.getD 3 0 = kind.code) :
    WritesBack header ↔ header.getD 3 0 ≠ Kind.binCode.code := by
  have front : header.take 5 = header.take 3 ++ [header.getD 3 0, header.getD 4 0] := by
    match header, nine with
    | [a, b, c, code, flags, d, e, f, g], _ => rfl
  have code : WritesBack header ↔ (Kind.new kind.code).code = kind.code := by
    rw [WritesBack, encode_parse nine, front, is]
    simp
  rw [code, is, Kind.new_code]
  cases kind <;> decide

end Head

/-- Headers of every kind that is written go through the codec in both directions, but for the
kind whose code the table leaves out. -/
theorem headerCodec_iff (head : Head) (payloadLen : Nat) (header : List Byte) :
    (head.kind.Emitted → head.streamId.Valid → payloadLen < 2 ^ 24 →
      (head.ReadsBack payloadLen ↔ head.kind ≠ .binCode)) ∧
    (header.length = 9 → (∃ kind : Kind, kind.Emitted ∧ header.getD 3 0 = kind.code) →
      (Head.WritesBack header ↔ header.getD 3 0 ≠ Kind.binCode.code)) :=
  ⟨fun _ valid sized => Head.readsBack_iff valid sized,
    fun nine ⟨_, _, is⟩ => Head.writesBack_iff nine is⟩

/-- The header of a GOAWAY frame in both directions, the reserved bit being set in one. -/
theorem headerCodec_goAway :
    Head.ReadsBack ⟨.goAway, 0, ⟨0⟩⟩ 8 ∧ Head.WritesBack [0, 0, 8, 7, 0, 0x80, 0, 0, 1] := by
  have codec := headerCodec_iff ⟨.goAway, 0, ⟨0⟩⟩ 8 [0, 0, 8, 7, 0, 0x80, 0, 0, 1]
  constructor
  · exact (codec.1 (by decide) (by decide) (by decide)).mpr (by decide)
  · exact (codec.2 rfl ⟨.goAway, by decide, rfl⟩).mpr (by decide)

/-- The header of a bincode frame reads as one of an unknown kind. -/
theorem binCodeHeader_misread :
    ¬ ((∀ (head : Head) (payloadLen : Nat), head.kind.Emitted → head.streamId.Valid →
        payloadLen < 2 ^ 24 → head.ReadsBack payloadLen) ∧
      ∀ header : List Byte, header.length = 9 →
        (∃ kind : Kind, kind.Emitted ∧ header.getD 3 0 = kind.code) → Head.WritesBack header) := by
  rintro ⟨reads, -⟩
  cases (reads ⟨.binCode, 0, ⟨1⟩⟩ 0 (by decide) (by decide) (by decide)).parsed

end H2l
