import H2l.Client.Read

/-!
# Walking a byte string frame by frame

One turn of either frame loop has four outcomes, listed once in `Turn`. `Reads`
describes, on bytes alone, the places at which a frame loop reads a header;
`reads_of_visits` and `visits_of_reads` identify them with the states the loop
visits, however the bytes were cut into pieces.
-/

namespace H2l

open Base

/-- The two ends of a connection. -/
inductive Endpoint where
  | server
  | client
deriving DecidableEq, Repr

/-- How many bytes are taken after a header. -/
def bodyLength (head : Head) (length : Nat) : Nat :=
  if head.kind = .windowUpdate then 4 else length

namespace Endpoint

/-- The reader of a payload at this end. -/
def readPayload : Endpoint → Head → Nat → TcpInput → Outcome Error Frame × TcpInput
  | server => Link.readPayload
  | client => Client.readPayload

/-- The reader of one frame at this end. -/
def readFrame : Endpoint → TcpInput → Outcome Error Frame × TcpInput
  | server => Link.readFrame
  | client => Client.readFrame

/-- The loop that reads frames until a read fails, at this end. -/
def frameLoop : Endpoint → TcpInput → Trace TcpInput Error Frame
  | server => Link.frameLoop
  | client => Client.frameLoop

/-- The panic of a reader that gives up before it reads a payload. -/
def refusal (endpoint : Endpoint) (head : Head) (length : Nat) : Option Panic :=
  match head.kind with
  | .data | .headers | .goAway | .windowUpdate => none
  | .settings => if 256 < length then some .slice else none
  | _ => match endpoint with
    | server => some .unreachable
    | client => none

/-- What a reader makes of a complete payload. -/
def decode (endpoint : Endpoint) (head : Head) (body : List Byte) : Outcome Error Frame :=
  match head.kind with
  | .data => match endpoint with
    | server => Frame.withData head.streamId body
    | client => (Outcome.ofExcept (Data.load head body)).map .data
  | .headers => .ok (Frame.withHeaders head.streamId body)
  | .settings => (Outcome.ofExcept (Settings.load head body)).map .settings
  | .goAway => (Outcome.ofExcept (GoAway.load body)).map .goAway
  | .windowUpdate => (Outcome.ofExcept (WindowUpdate.load head body)).map .windowUpdate
  | _ => match endpoint with
    | server => .panic .unreachable
    | client => .ok .unknown

/-- Both dispatches are one: refuse, or fill a buffer and decode it. -/
theorem readPayload_eq (endpoint : Endpoint) (head : Head) (length : Nat) (input : TcpInput) :
    endpoint.readPayload head length input =
      match endpoint.refusal head length with
      | some cause => (.panic cause, input)
      | none => readBody (bodyLength head length) (endpoint.decode head) input := by
  obtain ⟨kind, flags, streamId⟩ := head
  cases endpoint <;> cases kind
  case server.settings | client.settings =>
    simp only [readPayload, Link.readPayload, Client.readPayload, Link.readSettingsFrame,
      Client.readSettingsFrame, readWithin, refusal, bodyLength]
    split <;> rfl
  all_goals rfl

/-- Both ends read a header and then its payload. -/
theorem readFrame_eq (endpoint : Endpoint) (input : TcpInput) :
    endpoint.readFrame input =
      match readHead input with
      | (.ok (head, length), after) => endpoint.readPayload head length after
      | (.error err, after) => (.err err, after) := by
  cases endpoint <;> rfl

/-- Both ends read frame after frame. -/
theorem frameLoop_eq (endpoint : Endpoint) (input : TcpInput) :
    endpoint.frameLoop input =
      Loop.run (fun input => input.content.length) endpoint.readFrame input := by
  cases endpoint <;> rfl

end Endpoint

/-- The header at the front of a byte string. -/
def headAt (bytes : List Byte) : Head := Head.parse (bytes.take 9)

/-- The 24-bit length at the front of a byte string. -/
def lengthAt (bytes : List Byte) : Nat := Head.payloadLength (bytes.take 9)

/-- How many bytes are taken for the payload of the frame at the front. -/
def bodyLengthAt (bytes : List Byte) : Nat := bodyLength (headAt bytes) (lengthAt bytes)

/-- The payload of the frame at the front. -/
def bodyAt (bytes : List Byte) : List Byte := (bytes.drop 9).take (bodyLengthAt bytes)

/-- What follows the frame at the front. -/
def afterFrame (bytes : List Byte) : List Byte := (bytes.drop 9).drop (bodyLengthAt bytes)

/-- The four things one turn of a frame loop can do. -/
inductive Turn (endpoint : Endpoint) (input : TcpInput) : Prop where
  /-- The stream ends inside the header. -/
  | short (short : input.content.length < 9) (after : TcpInput)
      (turn : endpoint.readFrame input = (.err (.io (input.shortage .unexpectedEof)), after))
  /-- The reader panics on the header. -/
  | refused (enough : 9 ≤ input.content.length) (cause : Panic) (after : TcpInput)
      (refuses : endpoint.refusal (headAt input.content) (lengthAt input.content) = some cause)
      (turn : endpoint.readFrame input = (.panic cause, after))
  /-- The stream ends inside the payload. -/
  | cut (enough : 9 ≤ input.content.length)
      (reads : endpoint.refusal (headAt input.content) (lengthAt input.content) = none)
      (short : (input.content.drop 9).length < bodyLengthAt input.content) (after : TcpInput)
      (turn : endpoint.readFrame input = (.err (.io (input.shortage .unexpectedEof)), after))
  /-- The frame is complete and handed to its decoder. -/
  | whole (enough : 9 ≤ input.content.length)
      (reads : endpoint.refusal (headAt input.content) (lengthAt input.content) = none)
      (full : bodyLengthAt input.content ≤ (input.content.drop 9).length) (after : TcpInput)
      (turn : endpoint.readFrame input =
        (endpoint.decode (headAt input.content) (bodyAt input.content), after))
      (rest : after.content = afterFrame input.content) (ending : after.ending = input.ending)

/-- Every turn is one of the four. -/
theorem turn (endpoint : Endpoint) (input : TcpInput) : Turn endpoint input := by
  by_cases enough : 9 ≤ input.content.length
  · obtain ⟨middle, heads, rest, ending⟩ := readHead_of_le enough
    have shortage : middle.shortage .unexpectedEof = input.shortage .unexpectedEof := by
      simp only [Source.shortage, ending]
    have reads : endpoint.readFrame input =
        endpoint.readPayload (headAt input.content) (lengthAt input.content) middle := by
      rw [endpoint.readFrame_eq, heads]
      rfl
    rw [endpoint.readPayload_eq] at reads
    cases refuses : endpoint.refusal (headAt input.content) (lengthAt input.content) with
    | some cause =>
        rw [refuses] at reads
        exact .refused enough cause middle refuses reads
    | none =>
        rw [refuses] at reads
        by_cases full : bodyLengthAt input.content ≤ (input.content.drop 9).length
        · obtain ⟨after, body, rest', ending'⟩ :=
            readBody_of_le (endpoint.decode (headAt input.content)) (rest ▸ full)
          refine .whole enough refuses full after ?_ ?_ (ending'.trans ending)
          · rw [reads, bodyAt, ← rest]
            exact body
          · rw [rest', rest]
            rfl
        · obtain ⟨after, body⟩ :=
            readBody_of_lt (endpoint.decode (headAt input.content)) (rest ▸ Nat.not_le.mp full)
          refine .cut enough refuses (Nat.not_le.mp full) after ?_
          rw [reads, ← shortage]
          exact body
  · obtain ⟨after, heads⟩ := readHead_of_lt (Nat.not_le.mp enough)
    refine .short (Nat.not_le.mp enough) after ?_
    rw [endpoint.readFrame_eq, heads]

/-- A delivered frame was complete, decoded, and left the bytes after it. -/
theorem delivered_cases {endpoint : Endpoint} {input after : TcpInput} {frame : Frame}
    (delivers : endpoint.readFrame input = (.ok frame, after)) :
    9 ≤ input.content.length ∧
      endpoint.refusal (headAt input.content) (lengthAt input.content) = none ∧
      bodyLengthAt input.content ≤ (input.content.drop 9).length ∧
      endpoint.decode (headAt input.content) (bodyAt input.content) = .ok frame ∧
      after.content = afterFrame input.content ∧ after.ending = input.ending := by
  cases turn endpoint input with
  | short _ _ turn => rw [turn] at delivers; cases delivers
  | refused _ _ _ _ turn => rw [turn] at delivers; cases delivers
  | cut _ _ _ _ turn => rw [turn] at delivers; cases delivers
  | whole enough reads full after' turn rest ending =>
      rw [turn, Prod.mk.injEq] at delivers
      obtain ⟨decoded, rfl⟩ := delivers
      exact ⟨enough, reads, full, decoded, rest, ending⟩

/-- Every delivery consumes at least a header. -/
theorem readFrame_takes {endpoint : Endpoint} {input after : TcpInput} {frame : Frame}
    (delivers : endpoint.readFrame input = (.ok frame, after)) :
    after.content.length + 9 ≤ input.content.length := by
  obtain ⟨enough, -, -, -, rest, -⟩ := delivered_cases delivers
  simp only [rest, afterFrame, List.length_drop]
  omega

/-- Every frame that is read takes bytes away. -/
theorem readFrame_drains (endpoint : Endpoint) :
    Loop.Drains (fun input : TcpInput => input.content.length) endpoint.readFrame := by
  intro input frame after delivers
  have takes := readFrame_takes delivers
  dsimp only
  omega

/-- Whether a loop goes on after a complete payload, by the decoders of its endpoint. -/
def Endpoint.accepts (endpoint : Endpoint) (head : Head) (body : List Byte) : Bool :=
  match head.kind with
  | .data => match endpoint with
    | server => !head.streamId.isZero
    | client => (Data.load head body).isOk
  | .headers => true
  | .settings => decide (body.length ≤ 256) && (Settings.load head body).isOk
  | .goAway => (GoAway.load body).isOk
  | .windowUpdate => (WindowUpdate.load head body).isOk
  | _ => endpoint == client

/-- The places of a byte string at which a frame loop that starts at its front reads a
header: the front, and after every accepted frame. -/
inductive Reads (endpoint : Endpoint) : List Byte → List Byte → Prop where
  | here {bytes} : Reads endpoint bytes bytes
  | later {bytes final} (enough : 9 + bodyLengthAt bytes ≤ bytes.length)
      (accepted : endpoint.accepts (headAt bytes) (bodyAt bytes))
      (further : Reads endpoint (afterFrame bytes) final) : Reads endpoint bytes final

/-- The decoders accept exactly the frames on which the reader delivers. -/
theorem accepts_iff (endpoint : Endpoint) (head : Head) (body : List Byte) (length : Nat)
    (sized : body.length = bodyLength head length) :
    endpoint.accepts head body ↔
      endpoint.refusal head length = none ∧ (endpoint.decode head body).isOk := by
  obtain ⟨kind, flags, streamId⟩ := head
  cases kind
  case data =>
    cases endpoint
    · by_cases zero : streamId.isZero = true
      · simp [Endpoint.accepts, Endpoint.refusal, Endpoint.decode, Frame.withData, Data.new, zero,
          Outcome.isOk]
      · simp [Endpoint.accepts, Endpoint.refusal, Endpoint.decode, Frame.withData, Data.new, zero,
          Outcome.isOk]
    · simp [Endpoint.accepts, Endpoint.refusal, Endpoint.decode, Outcome.isOk_map_ofExcept]
  case settings =>
    have same : body.length = length := by simpa [bodyLength] using sized
    by_cases long : 256 < length
    · simp [Endpoint.accepts, Endpoint.refusal, same, long, Nat.not_le.mpr long]
    · simp [Endpoint.accepts, Endpoint.refusal, Endpoint.decode, Outcome.isOk_map_ofExcept, same,
        long, Nat.not_lt.mp long]
  case headers => simp [Endpoint.accepts, Endpoint.refusal, Endpoint.decode, Outcome.isOk]
  case goAway =>
    simp [Endpoint.accepts, Endpoint.refusal, Endpoint.decode, Outcome.isOk_map_ofExcept]
  case windowUpdate =>
    simp [Endpoint.accepts, Endpoint.refusal, Endpoint.decode, Outcome.isOk_map_ofExcept]
  all_goals cases endpoint <;> simp [Endpoint.accepts, Endpoint.refusal, Endpoint.decode,
    Outcome.isOk]

theorem bodyAt_length {bytes : List Byte} (full : bodyLengthAt bytes ≤ (bytes.drop 9).length) :
    (bodyAt bytes).length = bodyLengthAt bytes := by
  simp only [bodyAt, List.length_take]
  omega

/-- A turn delivers exactly when the frame at the front is complete and accepted. -/
theorem delivers_iff (endpoint : Endpoint) (input : TcpInput) :
    (∃ frame after, endpoint.readFrame input = (.ok frame, after)) ↔
      9 + bodyLengthAt input.content ≤ input.content.length ∧
        endpoint.accepts (headAt input.content) (bodyAt input.content) := by
  constructor
  · rintro ⟨frame, after, delivers⟩
    obtain ⟨enough, reads, full, decoded, -, -⟩ := delivered_cases delivers
    have lengths : (input.content.drop 9).length = input.content.length - 9 := List.length_drop
    refine ⟨by omega, (accepts_iff endpoint _ _ _ (bodyAt_length full)).mpr ⟨reads, ?_⟩⟩
    rw [decoded]
    rfl
  · rintro ⟨whole, accepted⟩
    have lengths : (input.content.drop 9).length = input.content.length - 9 := List.length_drop
    have full : bodyLengthAt input.content ≤ (input.content.drop 9).length := by omega
    obtain ⟨reads, decodes⟩ := (accepts_iff endpoint _ _ _ (bodyAt_length full)).mp accepted
    cases turn endpoint input with
    | short short => omega
    | refused _ _ _ refuses => rw [refuses] at reads; cases reads
    | cut _ _ short => omega
    | whole _ _ _ after turn =>
        cases decoded : endpoint.decode (headAt input.content) (bodyAt input.content) with
        | ok frame => exact ⟨frame, after, by rw [turn, decoded]⟩
        | err error => rw [decoded] at decodes; cases decodes
        | panic cause => rw [decoded] at decodes; cases decodes

/-- Every state a frame loop visits holds what remains at a place it reads. -/
theorem reads_of_visits {endpoint : Endpoint} {input reached : TcpInput}
    (visits : Loop.Visits endpoint.readFrame input reached) :
    Reads endpoint input.content reached.content := by
  induction visits with
  | here => exact .here
  | @later input frame next reached delivers _ ih =>
      obtain ⟨whole, accepted⟩ := (delivers_iff endpoint input).mp ⟨frame, next, delivers⟩
      obtain ⟨-, -, -, -, rest, -⟩ := delivered_cases delivers
      exact .later whole accepted (rest ▸ ih)

/-- A frame loop visits every place that `Reads` describes. -/
theorem visits_of_reads {endpoint : Endpoint} {bytes final : List Byte}
    (reads : Reads endpoint bytes final) {input : TcpInput} (holds : input.content = bytes) :
    ∃ reached, Loop.Visits endpoint.readFrame input reached ∧ reached.content = final := by
  induction reads generalizing input with
  | here => exact ⟨input, .here, holds⟩
  | later whole accepted _ ih =>
      subst holds
      obtain ⟨frame, after, delivers⟩ := (delivers_iff endpoint input).mpr ⟨whole, accepted⟩
      obtain ⟨-, -, -, -, rest, -⟩ := delivered_cases delivers
      obtain ⟨reached, visits, content⟩ := ih rest
      exact ⟨reached, .later delivers visits, content⟩

/-- One frame as it stands on the wire: nine bytes and as many as they announce. -/
structure WireFrame where
  header : List Byte
  payload : List Byte
  nine : header.length = 9
  sized : payload.length = Head.payloadLength header

namespace WireFrame

/-- The frame as it is sent. -/
def bytes (frame : WireFrame) : List Byte := frame.header ++ frame.payload

theorem lengthAt_bytes (frame : WireFrame) (rest : List Byte) :
    lengthAt (frame.bytes ++ rest) = frame.payload.length := by
  rw [lengthAt, bytes, List.append_assoc, List.take_left' frame.nine, frame.sized]

theorem bytes_length (frame : WireFrame) : frame.bytes.length = 9 + frame.payload.length := by
  simp [bytes, frame.nine]

end WireFrame

end H2l
