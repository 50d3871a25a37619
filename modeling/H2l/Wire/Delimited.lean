import H2l.Wire.Walk

/-!
# Frames that delimit themselves

A reader finds the end of a frame by the length in its header. The writers put the
length of the payload there, but only its low 24 bits, so a written frame delimits
itself exactly when its payload is shorter than 2^24 bytes
(`selfDelimiting_iff`).
-/

namespace H2l

open Base

/-- What writing a frame emits is nine bytes and as many as they announce, so that whatever is
written after it starts where the header says. -/
structure SelfDelimiting (frame : Frame) : Prop where
  header : 9 ≤ frame.writeTo.length
  announced : lengthAt frame.writeTo = (frame.writeTo.drop 9).length
  boundary : ∀ rest, (frame.writeTo ++ rest).drop (9 + lengthAt (frame.writeTo ++ rest)) = rest

/-- Every kind but `unknown` is written with a header. -/
theorem head_of_ne_unknown {frame : Frame} (written : frame ≠ .unknown) :
    ∃ head, frame.head = some head := by
  cases frame with
  | unknown => exact absurd rfl written
  | _ => exact ⟨_, rfl⟩

/-- The length that a written frame announces, whatever follows it. -/
theorem lengthAt_writeTo_append {frame : Frame} (written : frame ≠ .unknown) (rest : List Byte) :
    lengthAt (frame.writeTo ++ rest) = frame.body.length % 2 ^ 24 := by
  obtain ⟨head, has⟩ := head_of_ne_unknown written
  have nine := Head.encode_length head frame.body.length
  rw [Frame.writeTo_eq, has]
  simp only [lengthAt, List.append_assoc]
  rw [List.take_left' nine, ← List.append_nil (head.encode _), Head.payloadLength_encode]

theorem writeTo_length_eq {frame : Frame} (written : frame ≠ .unknown) :
    frame.writeTo.length = 9 + frame.body.length := by
  obtain ⟨head, has⟩ := head_of_ne_unknown written
  rw [Frame.writeTo_eq, has, List.length_append, Head.encode_length]

/-- A written frame delimits itself exactly when its payload is shorter than 2^24 bytes. -/
theorem selfDelimiting_iff {frame : Frame} (written : frame ≠ .unknown) :
    SelfDelimiting frame ↔ frame.body.length < 2 ^ 24 := by
  have length := writeTo_length_eq written
  have announced := lengthAt_writeTo_append written
  constructor
  · intro delimiting
    have same := delimiting.announced
    rw [← List.append_nil frame.writeTo, announced, List.append_nil, List.length_drop, length]
      at same
    omega
  · intro short
    have exact : frame.body.length % 2 ^ 24 = frame.body.length := Nat.mod_eq_of_lt short
    refine ⟨by omega, ?_, fun rest => ?_⟩
    · rw [← List.append_nil frame.writeTo, announced, exact, List.append_nil, List.length_drop,
        length]
      omega
    · rw [announced, exact, ← length, List.drop_left]

/-- A HEADERS frame of 2^24 bytes. -/
def oversized : Frame := .headers (Headers.new ⟨1⟩ (List.replicate (2 ^ 24) 0))

/-- The header announces no payload. -/
theorem oversized_not_delimiting : ¬ SelfDelimiting oversized := by
  intro delimiting
  have written : oversized ≠ .unknown := by rintro ⟨⟩
  have body : oversized.body.length = 2 ^ 24 := List.length_replicate
  have same := delimiting.announced
  rw [← List.append_nil oversized.writeTo, lengthAt_writeTo_append written, List.append_nil,
    List.length_drop, writeTo_length_eq written, body] at same
  omega

/-- An acknowledgement is its header alone. -/
theorem acknowledgement_delimiting : SelfDelimiting (.settings Settings.ack) :=
  have written : Frame.settings Settings.ack ≠ .unknown := by simp
  (selfDelimiting_iff written).mpr (by decide)

end H2l
