import H2l.Frame.Head

/-!
# Frames with a variable payload

DATA, HEADERS, CONTINUATION and the bincode frame. The payload is shared bytes
in the source and a byte list here. The fields are private there, so what every
constructor establishes is a field of the structure.
-/

namespace H2l

open Base

/-- The flags of a DATA frame: END_STREAM and PADDED. -/
abbrev DataFlags := FlagSet (0x9 : Byte)

namespace DataFlags

/-- The last frame of its stream. -/
def endStream : DataFlags := ⟨0x1, by decide⟩

/-- The payload begins with a pad length and ends with padding. -/
def padded : DataFlags := ⟨0x8, by decide⟩

/-- The known flags among the bits. -/
def load (bits : Byte) : DataFlags := FlagSet.truncate 0x9 bits

/-- Whether END_STREAM is set. -/
def isEndStream (flags : DataFlags) : Bool := FlagSet.intersects flags endStream

/-- Whether PADDED is set. -/
def isPadded (flags : DataFlags) : Bool := FlagSet.intersects flags padded

/-- The bits of DATA flags are loaded as they are. -/
@[simp] theorem load_bits (flags : DataFlags) : load flags.bits = flags :=
  FlagSet.truncate_self flags

end DataFlags

/-- A DATA frame. `data` still holds the padding that came with it. No constructor
accepts stream zero, and a pad length is recorded exactly when `PADDED` is set. -/
structure Data where
  streamId : StreamId
  data : List Byte
  flags : DataFlags
  padLen : Option Byte
  nonzero : streamId.isZero = false
  recorded : padLen.isSome = flags.isPadded
deriving DecidableEq

namespace Data

/-- The constructor asserts a non-zero stream. -/
def new {ε : Type} (streamId : StreamId) (payload : List Byte) : Outcome ε Data :=
  if zero : streamId.isZero then .panic .assertion
  else .ok ⟨streamId, payload, FlagSet.empty, none, by simpa using zero, by decide⟩

/-- The pad length of a padded payload. -/
def checkPadding : List Byte → Except Error Byte
  | [] => .error .tooMuchPadding
  | padLen :: rest =>
      if padLen.toNat ≥ (padLen :: rest).length then .error .tooMuchPadding else .ok padLen

/-- Stream 0 is refused, and the padding is checked. The payload stays whole. -/
def load (head : Head) (payload : List Byte) : Except Error Data :=
  if zero : head.streamId.isZero then .error .invalidStreamId
  else if padded : (DataFlags.load head.flags).isPadded then
    match checkPadding payload with
    | .ok padLen =>
        .ok ⟨head.streamId, payload, DataFlags.load head.flags, some padLen, by simpa using zero,
          by simp [padded]⟩
    | .error error => .error error
  else
    .ok ⟨head.streamId, payload, DataFlags.load head.flags, none, by simpa using zero,
      by simpa using padded⟩

/-- Whether the frame ends its stream. -/
def isEndStream (frame : Data) : Bool := frame.flags.isEndStream

/-- The payload as it was received. -/
def payload (frame : Data) : List Byte := frame.data

/-- The payload as it was received. -/
def intoPayload (frame : Data) : List Byte := frame.data

/-- `as_bytes`; `payload` and `into_payload` return the same bytes. -/
def asBytes (frame : Data) : List Byte := frame.data

/-- Whether the payload is empty. -/
def isEmpty (frame : Data) : Bool := frame.asBytes.isEmpty

/-- The length of the payload. -/
def len (frame : Data) : Nat := frame.asBytes.length

/-- The head that is written before the payload. -/
def head (frame : Data) : Head := ⟨.data, frame.flags.bits, frame.streamId⟩

/-- The bytes a successful `write_to` emits. -/
def writeTo (frame : Data) : List Byte := frame.head.encode frame.asBytes.length ++ frame.asBytes

/-- The payload carries the recorded pad length. -/
def WellPadded (frame : Data) : Prop :=
  ∀ padLen, frame.padLen = some padLen → checkPadding frame.data = .ok padLen

/-- Loading a frame's own head and payload returns the frame. -/
theorem load_head (frame : Data) (wellPadded : frame.WellPadded) :
    load frame.head frame.data = .ok frame := by
  obtain ⟨streamId, data, flags, padLen, nonzero, recorded⟩ := frame
  cases padLen with
  | none =>
      have plain : DataFlags.isPadded flags = false := by simpa using recorded.symm
      simp [load, head, nonzero, plain]
  | some padLen =>
      have padded : DataFlags.isPadded flags = true := by simpa using recorded.symm
      have checked : checkPadding data = .ok padLen := wellPadded padLen rfl
      simp [load, head, nonzero, padded, checked]

/-- What `load` accepts, and the frame it returns. -/
theorem load_eq_ok {frame : Data} {head : Head} {payload : List Byte}
    (loaded : load head payload = .ok frame) :
    frame.streamId = head.streamId ∧ frame.data = payload ∧
      frame.flags = DataFlags.load head.flags := by
  unfold load at loaded
  split at loaded
  · cases loaded
  · split at loaded
    · split at loaded
      · cases loaded; exact ⟨rfl, rfl, rfl⟩
      · cases loaded
    · cases loaded; exact ⟨rfl, rfl, rfl⟩

end Data

/-- The flags of a HEADERS or CONTINUATION frame. -/
abbrev Flags := FlagSet (0x2d : Byte)

namespace Flags

/-- No CONTINUATION frame follows. -/
def endHeaders : Flags := ⟨0x4, by decide⟩

end Flags

/-- A HEADERS frame. The only constructor leaves the flags empty and nothing sets them. -/
structure Headers where
  streamId : StreamId
  flags : Flags
  rawData : List Byte
  plain : flags = FlagSet.empty
deriving DecidableEq

namespace Headers

/-- A HEADERS frame without flags. -/
def new (streamId : StreamId) (rawData : List Byte) : Headers :=
  ⟨streamId, FlagSet.empty, rawData, rfl⟩

/-- The head that is written before the payload. -/
def head (frame : Headers) : Head := ⟨.headers, frame.flags.bits, frame.streamId⟩

/-- The payload. -/
def asBytes (frame : Headers) : List Byte := frame.rawData

/-- What goes to the socket. -/
def writeTo (frame : Headers) : List Byte :=
  frame.head.encode frame.asBytes.length ++ frame.asBytes

/-- Every HEADERS frame is the one its constructor builds. -/
theorem new_eq (frame : Headers) : new frame.streamId frame.rawData = frame := by
  obtain ⟨streamId, flags, rawData, rfl⟩ := frame
  rfl

end Headers

/-- A CONTINUATION frame. -/
structure Continuation where
  streamId : StreamId
  rawData : List Byte
deriving DecidableEq

namespace Continuation

/-- The head that is written before the payload. END_HEADERS is always set. -/
def head (frame : Continuation) : Head := ⟨.continuation, Flags.endHeaders.bits, frame.streamId⟩

/-- The payload. -/
def asBytes (frame : Continuation) : List Byte := frame.rawData

/-- What goes to the socket. -/
def writeTo (frame : Continuation) : List Byte :=
  frame.head.encode frame.asBytes.length ++ frame.asBytes

end Continuation

/-- The flags of a BinCode frame. -/
abbrev BinCodeFlags := FlagSet (0x1 : Byte)

/-- A bincode frame. -/
structure BinCode where
  streamId : StreamId
  flags : BinCodeFlags
  data : List Byte
deriving DecidableEq

namespace BinCode

/-- The head that is written before the payload. -/
def head (frame : BinCode) : Head := ⟨.binCode, frame.flags.bits, frame.streamId⟩

/-- The payload. -/
def asBytes (frame : BinCode) : List Byte := frame.data

/-- What goes to the socket. -/
def writeTo (frame : BinCode) : List Byte :=
  frame.head.encode frame.asBytes.length ++ frame.asBytes

end BinCode

end H2l
