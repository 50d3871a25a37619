import H2l.Wire.Walk

/-!
# Frame boundaries

A reader that consumes what each header announces stays on the frame boundaries
of its input. `readWindowUpdateFrame` takes four bytes whatever the header says,
so both endpoints leave the boundaries exactly at a WINDOW_UPDATE frame of
another length that is still delivered (`aligned_iff`).
-/

namespace H2l

open Base

/-- A frame that is delivered takes its header and the length the header announces, whenever
that many bytes are there. -/
def FrameConsumed (endpoint : Endpoint) (input : TcpInput) : Prop :=
  ∀ frame after, endpoint.readFrame input = (.ok frame, after) →
    9 + lengthAt input.content ≤ input.content.length →
    after.content = input.content.drop (9 + lengthAt input.content)

/-- Every turn of a frame loop consumes what its header announces, and on a sequence of
wire frames every header is read at the start of a frame. -/
structure Aligned (endpoint : Endpoint) (input : TcpInput) : Prop where
  consumed : ∀ reached, Loop.Visits endpoint.readFrame input reached →
    FrameConsumed endpoint reached
  boundary : ∀ frames : List WireFrame, input.content = frames.flatMap WireFrame.bytes →
    ∀ reached, Loop.Visits endpoint.readFrame input reached →
      ∃ count, reached.content = (frames.drop count).flatMap WireFrame.bytes

/-- At every place a frame loop reads, a WINDOW_UPDATE frame that is complete and decodes
announces four bytes. -/
def UpdatesSized (endpoint : Endpoint) (bytes : List Byte) : Prop :=
  ∀ place, Reads endpoint bytes place → (headAt place).kind = .windowUpdate →
    13 ≤ place.length → 9 + lengthAt place ≤ place.length →
    (WindowUpdate.load (headAt place) (bodyAt place)).isOk → lengthAt place = 4

/-- Behind a frame that was accepted the updates are still sized. -/
theorem UpdatesSized.afterFrame {endpoint : Endpoint} {bytes : List Byte}
    (sized : UpdatesSized endpoint bytes) (whole : 9 + bodyLengthAt bytes ≤ bytes.length)
    (accepted : endpoint.accepts (headAt bytes) (bodyAt bytes)) :
    UpdatesSized endpoint (afterFrame bytes) :=
  fun place reads => sized place (.later whole accepted reads)

theorem afterFrame_eq_drop (bytes : List Byte) :
    afterFrame bytes = bytes.drop (9 + bodyLengthAt bytes) := by
  rw [afterFrame, List.drop_drop]

theorem bodyLengthAt_windowUpdate {bytes : List Byte}
    (kind : (headAt bytes).kind = .windowUpdate) : bodyLengthAt bytes = 4 := by
  simp [bodyLengthAt, bodyLength, kind]

theorem bodyLengthAt_other {bytes : List Byte} (kind : (headAt bytes).kind ≠ .windowUpdate) :
    bodyLengthAt bytes = lengthAt bytes := by
  simp [bodyLengthAt, bodyLength, kind]

theorem accepts_windowUpdate {endpoint : Endpoint} {head : Head} {body : List Byte}
    (kind : head.kind = .windowUpdate) :
    endpoint.accepts head body = (WindowUpdate.load head body).isOk := by
  simp [Endpoint.accepts, kind]

/-- One turn consumes what its header announces when the update at its front does. -/
theorem frameConsumed_of_sized {endpoint : Endpoint} {input : TcpInput}
    (sized : UpdatesSized endpoint input.content) : FrameConsumed endpoint input := by
  intro frame after delivers available
  obtain ⟨whole, accepted⟩ := (delivers_iff endpoint input).mp ⟨frame, after, delivers⟩
  obtain ⟨-, -, -, -, rest, -⟩ := delivered_cases delivers
  rw [rest, afterFrame_eq_drop]
  by_cases kind : (headAt input.content).kind = .windowUpdate
  · have four := bodyLengthAt_windowUpdate kind
    rw [accepts_windowUpdate kind] at accepted
    rw [four, sized _ .here kind (by omega) available accepted]
  · rw [bodyLengthAt_other kind]

/-- Every place read after a visited state is read from the start. -/
theorem UpdatesSized.visited {endpoint : Endpoint} {input reached : TcpInput}
    (sized : UpdatesSized endpoint input.content)
    (visits : Loop.Visits endpoint.readFrame input reached) :
    UpdatesSized endpoint reached.content := by
  induction visits with
  | here => exact sized
  | @later input frame next reached delivers _ ih =>
      obtain ⟨whole, accepted⟩ := (delivers_iff endpoint input).mp ⟨frame, next, delivers⟩
      obtain ⟨-, -, -, -, rest, -⟩ := delivered_cases delivers
      exact ih (rest ▸ sized.afterFrame whole accepted)

/-- A sequence of wire frames is left one frame at a time. -/
theorem boundary_of_sized {endpoint : Endpoint} {input reached : TcpInput}
    (visits : Loop.Visits endpoint.readFrame input reached)
    (sized : UpdatesSized endpoint input.content) (frames : List WireFrame)
    (sequence : input.content = frames.flatMap WireFrame.bytes) :
    ∃ count, reached.content = (frames.drop count).flatMap WireFrame.bytes := by
  induction visits generalizing frames with
  | here => exact ⟨0, sequence⟩
  | @later input frame next reached delivers _ ih =>
      obtain ⟨whole, accepted⟩ := (delivers_iff endpoint input).mp ⟨frame, next, delivers⟩
      obtain ⟨-, -, -, -, rest, -⟩ := delivered_cases delivers
      cases frames with
      | nil => simp [sequence] at whole
      | cons first others =>
          rw [List.flatMap_cons] at sequence
          have length : lengthAt input.content = first.payload.length := by
            rw [sequence, first.lengthAt_bytes]
          have available : 9 + lengthAt input.content ≤ input.content.length := by
            rw [length, sequence, List.length_append, first.bytes_length]
            omega
          have consumed := frameConsumed_of_sized sized frame next delivers available
          have onward : next.content = others.flatMap WireFrame.bytes := by
            rw [consumed, length, sequence, ← first.bytes_length, List.drop_left]
          obtain ⟨count, place⟩ := ih (rest ▸ sized.afterFrame whole accepted) others onward
          exact ⟨count + 1, by simpa using place⟩

/-- Both endpoints stay on the frame boundaries exactly when every WINDOW_UPDATE frame
they deliver announces four bytes. -/
theorem aligned_iff (endpoint : Endpoint) (input : TcpInput) :
    Aligned endpoint input ↔ UpdatesSized endpoint input.content := by
  constructor
  · intro aligned place reads kind whole available decodes
    obtain ⟨reached, visits, rfl⟩ := visits_of_reads reads rfl
    have four := bodyLengthAt_windowUpdate kind
    obtain ⟨frame, after, delivers⟩ := (delivers_iff endpoint reached).mpr
      ⟨by omega, by rw [accepts_windowUpdate kind]; exact decodes⟩
    have consumed := aligned.consumed reached visits frame after delivers available
    obtain ⟨-, -, -, -, rest, -⟩ := delivered_cases delivers
    rw [rest, afterFrame_eq_drop, four] at consumed
    have lengths := congrArg List.length consumed
    simp only [List.length_drop] at lengths
    omega
  · intro sized
    exact ⟨fun reached visits => frameConsumed_of_sized (sized.visited visits),
      fun frames sequence reached visits => boundary_of_sized visits sized frames sequence⟩

/-- A WINDOW_UPDATE frame that announces five bytes. -/
def stretchedUpdate : TcpInput :=
  Source.ofContent [0, 0, 5, 8, 0, 0, 0, 0, 0, 0, 0, 0, 1, 0] none

/-- Both readers deliver the stretched update and leave its fifth byte for the next header. -/
theorem stretchedUpdate_not_aligned :
    ¬ Aligned .server stretchedUpdate ∧ ¬ Aligned .client stretchedUpdate := by
  have leaves : ∀ endpoint : Endpoint, ¬ FrameConsumed endpoint stretchedUpdate := by
    intro endpoint consumed
    have delivers : (endpoint.readFrame stretchedUpdate).1 =
        .ok (.windowUpdate ⟨StreamId.zero, 1⟩) := by
      cases endpoint <;> decide
    have left := consumed _ (endpoint.readFrame stretchedUpdate).2 (Prod.ext delivers rfl)
      (by decide)
    revert left
    cases endpoint <;> decide
  exact ⟨fun aligned => leaves .server (aligned.consumed _ .here),
    fun aligned => leaves .client (aligned.consumed _ .here)⟩

end H2l
