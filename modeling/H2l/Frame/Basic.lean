import H2l.Frame.Control
import H2l.Frame.Data
import H2l.Frame.Settings

/-!
# Frames and what writing one emits

`Frame.writeTo` is the byte string that a successful `write_to` hands to the
socket. Its header carries the length of the rest, so a payload below 2^24 bytes
delimits itself; `Frame.writeTo_eq` states this once for all kinds.
-/

namespace H2l

open Base

/-- A frame of any kind. `unknown` stands for a frame that was read and dropped. -/
inductive Frame where
  | data (frame : Data)
  | headers (frame : Headers)
  | priority (frame : Priority)
  | reset (frame : Reset)
  | settings (frame : Settings)
  | goAway (frame : GoAway)
  | windowUpdate (frame : WindowUpdate)
  | continuation (frame : Continuation)
  | binCode (frame : BinCode)
  | unknown
deriving DecidableEq

namespace Frame

/-- Construct a DATA frame; panics on stream zero. -/
def withData {ε : Type} (streamId : StreamId) (payload : List Byte) : Outcome ε Frame :=
  (Data.new streamId payload).map data

/-- A HEADERS frame without flags. -/
def withHeaders (streamId : StreamId) (rawData : List Byte) : Frame :=
  headers (Headers.new streamId rawData)

/-- The bytes a successful `write_to` emits. -/
def writeTo : Frame → List Byte
  | data frame => frame.writeTo
  | headers frame => frame.writeTo
  | priority frame => frame.writeTo
  | reset frame => frame.writeTo
  | settings frame => frame.writeTo
  | goAway frame => frame.writeTo
  | windowUpdate frame => frame.writeTo
  | continuation frame => frame.writeTo
  | binCode frame => frame.writeTo
  | unknown => []

/-- The header written for a frame; nothing is written for `unknown`. -/
def head : Frame → Option Head
  | data frame => some frame.head
  | headers frame => some frame.head
  | priority frame => some ⟨.priority, 0, frame.streamId⟩
  | reset frame => some ⟨.reset, 0, frame.streamId⟩
  | settings frame => some frame.head
  | goAway _ => some ⟨.goAway, 0, StreamId.zero⟩
  | windowUpdate frame => some ⟨.windowUpdate, 0, frame.streamId⟩
  | continuation frame => some frame.head
  | binCode frame => some frame.head
  | unknown => none

/-- The bytes written after the header. -/
def body : Frame → List Byte
  | data frame => frame.asBytes
  | headers frame => frame.asBytes
  | priority frame => frame.dependency.encode
  | reset frame => put32 frame.errorCode.code
  | settings frame => frame.entries.flatMap Setting.encode
  | goAway frame => put32 frame.lastStreamId.raw ++ put32 frame.errorCode.code
  | windowUpdate frame => put32 frame.sizeIncrement
  | continuation frame => frame.asBytes
  | binCode frame => frame.asBytes
  | unknown => []

/-- Every written frame is its header, carrying the length of its body, and its body. -/
theorem writeTo_eq (frame : Frame) :
    frame.writeTo = match frame.head with
      | some head => head.encode frame.body.length ++ frame.body
      | none => [] := by
  cases frame with
  | settings frame =>
      simp only [writeTo, head, body, Settings.writeTo, Settings.encode, Settings.payloadLen_eq]
  | priority frame =>
      have five : frame.dependency.encode.length = 5 := by simp [StreamDependency.encode]
      simp only [writeTo, head, body, Priority.writeTo, Priority.encode, five]
  | reset frame => simp [writeTo, head, body, Reset.writeTo, Reset.encode]
  | goAway frame => simp [writeTo, head, body, GoAway.writeTo, GoAway.encode]
  | windowUpdate frame => simp [writeTo, head, body, WindowUpdate.writeTo, WindowUpdate.encode]
  | _ => rfl

end Frame

end H2l
