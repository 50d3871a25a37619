import H2l.Frame.Padding
import H2l.Wire.RoundTrip

/-!
# The header of a received frame

Which part of a wire header survives in the frame that is delivered for it. The
client's DATA frames keep their flags; the server's DATA frames and the HEADERS
frames of both endpoints are built without them (`headersKept_iff`).
-/

namespace H2l

open Base

/-- The flags defined for a kind. -/
def definedFlags : Kind → Byte
  | .data => 0x9
  | .headers => 0x2d
  | _ => 0

/-- A header with its flags restricted to the defined ones. -/
def Head.restricted (head : Head) : Head :=
  { head with flags := head.flags &&& definedFlags head.kind }

/-- A DATA frame with valid padding on a stream, or a HEADERS frame. -/
def Receivable (head : Head) (body : List Byte) : Prop :=
  (head.kind = .data ∧ head.streamId.isZero = false ∧
      ((DataFlags.load head.flags).isPadded → (Data.checkPadding body).isOk)) ∨
    head.kind = .headers

/-- No part of a wire header is lost in the frame delivered for it. -/
structure Kept (wire : Head) (frame : Frame) : Prop where
  head : frame.head = some wire.restricted
  ended : ∀ data, frame = .data data →
    data.isEndStream = (wire.flags &&& DataFlags.endStream.bits != 0)
  rewritten : headAt frame.writeTo = wire.restricted

/-- Every DATA and HEADERS frame a loop delivers keeps the header it arrived with. -/
def HeadersKept (endpoint : Endpoint) (input : TcpInput) : Prop :=
  ∀ reached, Loop.Visits endpoint.readFrame input reached → ∀ frame after,
    endpoint.readFrame reached = (.ok frame, after) →
    Receivable (headAt reached.content) (bodyAt reached.content) →
    Kept (headAt reached.content) frame

/-- Both endpoints accept a receivable frame. -/
theorem Receivable.accepted {head : Head} {body : List Byte} (receivable : Receivable head body)
    (endpoint : Endpoint) : endpoint.accepts head body := by
  rcases receivable with ⟨kind, stream, padding⟩ | kind
  · cases endpoint
    · simp [Endpoint.accepts, kind, stream]
    · have accepted : (Data.load head body).isOk := by
        rw [data_load_isOk_iff stream, ← checkPadding_isOk_iff]
        cases padded : (DataFlags.load head.flags).isPadded with
        | false => exact .inl rfl
        | true => exact .inr (padding padded)
      simpa [Endpoint.accepts, kind] using accepted
  · simp [Endpoint.accepts, kind]

theorem Receivable.bodyLength_eq {head : Head} {body : List Byte}
    (receivable : Receivable head body) (length : Nat) : bodyLength head length = length := by
  rcases receivable with ⟨kind, -⟩ | kind <;> simp [bodyLength, kind]

/-- An endpoint that keeps the flags of a kind. -/
def Endpoint.KeepsFlags (endpoint : Endpoint) (kind : Kind) : Prop :=
  endpoint = .client ∧ kind = .data

instance (endpoint : Endpoint) (kind : Kind) : Decidable (endpoint.KeepsFlags kind) :=
  inferInstanceAs (Decidable (_ ∧ _))

/-- The header of a delivered frame: the flags stand only where the endpoint keeps them. -/
theorem decoded_head {endpoint : Endpoint} {head : Head} {body : List Byte} {frame : Frame}
    (receivable : Receivable head body) (decoded : endpoint.decode head body = .ok frame) :
    frame.head =
      some { head.restricted with
        flags := if endpoint.KeepsFlags head.kind then head.restricted.flags else 0 } := by
  obtain ⟨kind, flags, streamId⟩ := head
  rcases receivable with ⟨rfl, stream, -⟩ | rfl
  · cases endpoint with
    | server =>
        simp only [Endpoint.decode, Frame.withData, Data.new] at decoded
        rw [dif_neg (by simp [stream])] at decoded
        cases decoded
        rfl
    | client =>
        simp only [Endpoint.decode] at decoded
        cases loaded : Data.load ⟨.data, flags, streamId⟩ body with
        | error error => rw [loaded] at decoded; cases decoded
        | ok data =>
            rw [loaded] at decoded
            cases decoded
            obtain ⟨sameStream, -, sameFlags⟩ := Data.load_eq_ok loaded
            simp only [Frame.head, Data.head, sameStream, sameFlags]
            rfl
  · simp only [Endpoint.decode] at decoded
    cases decoded
    simp [Frame.withHeaders, Frame.head, Headers.head, Headers.new, Endpoint.KeepsFlags,
      Head.restricted]

/-- The front of what is written for a frame is its header. -/
theorem headAt_writeTo {frame : Frame} {head : Head} (written : frame.head = some head)
    (valid : head.streamId.Valid) (other : head.kind ≠ .binCode) : headAt frame.writeTo = head := by
  have nine : frame.writeTo.take 9 = head.encode frame.body.length ++ [] := by
    rw [Frame.writeTo_of_head written, List.append_nil]
    exact List.take_left' (head.encode_length _)
  have cleared : head.streamId.raw &&& ~~~StreamId.mask = head.streamId.raw :=
    StreamId.cleared_of_lt valid
  rw [headAt, nine, Head.parse_encode, cleared]
  exact Frame.wireHead_kind_ne other

/-- A frame with the restricted header has lost nothing. -/
theorem kept_iff {wire : Head} {frame : Frame} (valid : wire.streamId.Valid)
    (kind : wire.kind = .data ∨ wire.kind = .headers) :
    Kept wire frame ↔ frame.head = some wire.restricted := by
  refine ⟨Kept.head, fun head => ⟨head, ?_, headAt_writeTo head valid ?_⟩⟩
  · rintro data rfl
    have bits : data.flags.bits = wire.flags &&& definedFlags wire.kind := by
      have same : data.head = wire.restricted := Option.some.inj head
      exact congrArg Head.flags same
    have isData : wire.kind = .data := by
      have same : data.head = wire.restricted := Option.some.inj head
      exact (congrArg Head.kind same).symm
    have masked : definedFlags .data &&& DataFlags.endStream.bits = DataFlags.endStream.bits := by
      decide
    rw [Data.isEndStream, DataFlags.isEndStream, FlagSet.intersects, bits, isData,
      BitVec.and_assoc, masked]
  · rcases kind with kind | kind <;> simp [Head.restricted, kind]

theorem Receivable.kind_cases {head : Head} {body : List Byte} (receivable : Receivable head body) :
    head.kind = .data ∨ head.kind = .headers :=
  receivable.imp (fun data => data.1) id

/-- A delivered frame keeps its header where the endpoint keeps flags or there are none. -/
theorem kept_of_decoded_iff {endpoint : Endpoint} {head : Head} {body : List Byte} {frame : Frame}
    (valid : head.streamId.Valid) (receivable : Receivable head body)
    (decoded : endpoint.decode head body = .ok frame) :
    Kept head frame ↔
      endpoint.KeepsFlags head.kind ∨ head.flags &&& definedFlags head.kind = 0 := by
  rw [kept_iff valid receivable.kind_cases, decoded_head receivable decoded, Option.some_inj]
  by_cases keeps : endpoint.KeepsFlags head.kind
  · simp [keeps]
  · simp only [keeps, if_false, false_or]
    constructor
    · intro same
      exact (congrArg Head.flags same).symm
    · intro none
      simp [Head.restricted, none]

/-- A receivable frame that an endpoint reads without losing its header carries no flag
that the endpoint drops. -/
theorem HeadersKept.plain {endpoint : Endpoint} {input : TcpInput}
    (kept : HeadersKept endpoint input) {place : List Byte}
    (reads : Reads endpoint input.content place) (whole : 9 + lengthAt place ≤ place.length)
    (receivable : Receivable (headAt place) (bodyAt place)) :
    endpoint.KeepsFlags (headAt place).kind ∨
      (headAt place).flags &&& definedFlags (headAt place).kind = 0 := by
  obtain ⟨reached, visits, rfl⟩ := visits_of_reads reads rfl
  have taken : bodyLengthAt reached.content = lengthAt reached.content := receivable.bodyLength_eq _
  obtain ⟨frame, after, delivers⟩ := (delivers_iff endpoint reached).mpr
    ⟨taken ▸ whole, receivable.accepted endpoint⟩
  obtain ⟨-, -, -, decoded, -, -⟩ := delivered_cases delivers
  have valid : (headAt reached.content).streamId.Valid := Head.parse_streamId_valid _
  exact (kept_of_decoded_iff valid receivable decoded).mp
    (kept reached visits frame after delivers receivable)

/-- An endpoint loses nothing exactly when the DATA and HEADERS frames it reads carry no
defined flag, DATA at the client apart. -/
theorem headersKept_iff (endpoint : Endpoint) (input : TcpInput) :
    HeadersKept endpoint input ↔
      ∀ place, Reads endpoint input.content place → 9 + lengthAt place ≤ place.length →
        Receivable (headAt place) (bodyAt place) →
        endpoint.KeepsFlags (headAt place).kind ∨
          (headAt place).flags &&& definedFlags (headAt place).kind = 0 := by
  constructor
  · intro kept place reads whole receivable
    exact kept.plain reads whole receivable
  · intro plain reached visits frame after delivers receivable
    obtain ⟨enough, -, full, decoded, -, -⟩ := delivered_cases delivers
    have taken : bodyLengthAt reached.content = lengthAt reached.content :=
      receivable.bodyLength_eq _
    have whole : 9 + lengthAt reached.content ≤ reached.content.length := by
      rw [taken, List.length_drop] at full
      omega
    have valid : (headAt reached.content).streamId.Valid := Head.parse_streamId_valid _
    exact (kept_of_decoded_iff valid receivable decoded).mpr
      (plain _ (reads_of_visits visits) whole receivable)

/-- A DATA frame of two bytes that ends its stream. -/
def endedData : TcpInput :=
  Source.ofContent [0, 0, 2, 0, 1, 0, 0, 0, 1, 0x68, 0x69] none

/-- A HEADERS frame that ends its headers and its stream. -/
def endedHeaders : TcpInput :=
  Source.ofContent [0, 0, 1, 1, 5, 0, 0, 0, 1, 0x82] none

/-- The server loses the end of a stream; both endpoints lose the flags of HEADERS. -/
theorem ended_not_kept :
    ¬ HeadersKept .server endedData ∧ ¬ HeadersKept .server endedHeaders ∧
      ¬ HeadersKept .client endedHeaders := by
  refine ⟨fun kept => ?_, fun kept => ?_, fun kept => ?_⟩
  · exact absurd (kept.plain .here (by decide) (.inl (by decide))) (by decide)
  · exact absurd (kept.plain .here (by decide) (.inr (by decide))) (by decide)
  · exact absurd (kept.plain .here (by decide) (.inr (by decide))) (by decide)

end H2l
