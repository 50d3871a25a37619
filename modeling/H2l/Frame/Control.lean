import H2l.Frame.Head

/-!
# Fixed-size control frames

PRIORITY, RST_STREAM, GOAWAY and WINDOW_UPDATE.
-/

namespace H2l

open Base

/-- An HTTP/2 error code. -/
structure Reason where
  code : Word
deriving DecidableEq, Repr

/-- The dependency of a PRIORITY frame. -/
structure StreamDependency where
  dependencyId : StreamId
  weight : Byte
  isExclusive : Bool
deriving DecidableEq, Repr

namespace StreamDependency

/-- Five octets: the stream with the exclusive bit, then the weight. -/
def load (src : List Byte) : Except Error StreamDependency :=
  if src.length ≠ 5 then .error .invalidPayloadLength
  else
    let (dependencyId, isExclusive) := StreamId.parse (src.take 4)
    .ok ⟨dependencyId, src.getD 4 0, isExclusive⟩

/-- The octets that `load` reads. -/
def encode (dependency : StreamDependency) : List Byte :=
  let streamId := dependency.dependencyId.raw
  put32 (if dependency.isExclusive then streamId ||| 0x80000000 else streamId) ++
    [dependency.weight]

end StreamDependency

/-- A PRIORITY frame. -/
structure Priority where
  streamId : StreamId
  dependency : StreamDependency
deriving DecidableEq, Repr

namespace Priority

/-- A stream must not depend on itself. -/
def load (head : Head) (payload : List Byte) : Except Error Priority :=
  match StreamDependency.load payload with
  | .error error => .error error
  | .ok dependency =>
      if dependency.dependencyId = head.streamId then .error .invalidDependencyId
      else .ok ⟨head.streamId, dependency⟩

/-- The head and the dependency. -/
def encode (frame : Priority) : List Byte :=
  Head.encode ⟨.priority, 0, frame.streamId⟩ 5 ++ frame.dependency.encode

/-- What goes to the socket. -/
def writeTo (frame : Priority) : List Byte := frame.encode

/-- What `load` accepts, and the frame it returns. -/
theorem load_eq_ok {head : Head} {payload : List Byte} {frame : Priority} :
    load head payload = .ok frame ↔ payload.length = 5 ∧
      (StreamId.parse (payload.take 4)).1 ≠ head.streamId ∧
      frame = ⟨head.streamId, (StreamId.parse (payload.take 4)).1, payload.getD 4 0,
        (StreamId.parse (payload.take 4)).2⟩ := by
  unfold load StreamDependency.load
  by_cases five : payload.length = 5
  · simp only [five, ne_eq, not_true, if_false, true_and]
    split
    next own => simp [own]
    next distinct =>
      rw [Except.ok.injEq, @eq_comm _ _ frame]
      exact ⟨fun is => ⟨distinct, is⟩, fun ⟨_, is⟩ => is⟩
  · simp [five]

end Priority

/-- A RST_STREAM frame. -/
structure Reset where
  streamId : StreamId
  errorCode : Reason
deriving DecidableEq, Repr

namespace Reset

/-- Four octets with the error code. -/
def load (head : Head) (payload : List Byte) : Except Error Reset :=
  if payload.length ≠ 4 then .error .invalidPayloadLength
  else .ok ⟨head.streamId, ⟨unpackOctets4 payload 0⟩⟩

/-- The head and the error code. -/
def encode (frame : Reset) : List Byte :=
  Head.encode ⟨.reset, 0, frame.streamId⟩ 4 ++ put32 frame.errorCode.code

/-- What goes to the socket. -/
def writeTo (frame : Reset) : List Byte := frame.encode

/-- What `load` accepts, and the frame it returns. -/
theorem load_eq_ok {head : Head} {payload : List Byte} {frame : Reset} :
    load head payload = .ok frame ↔
      payload.length = 4 ∧ frame = ⟨head.streamId, ⟨be32 payload⟩⟩ := by
  unfold load
  split
  next short => simp [short]
  next four =>
    rw [Classical.not_not] at four
    rw [unpackOctets4_take (by omega), List.drop_zero, List.take_of_length_le (by omega)]
    simp [four, eq_comm]

end Reset

/-- A GOAWAY frame; the additional debug data is not kept. -/
structure GoAway where
  lastStreamId : StreamId
  errorCode : Reason
deriving DecidableEq, Repr

namespace GoAway

/-- The last stream and the error code; debug data behind them is dropped. -/
def load (payload : List Byte) : Except Error GoAway :=
  if payload.length < 8 then .error .badFrameSize
  else .ok ⟨(StreamId.parse (payload.take 4)).1, ⟨unpackOctets4 payload 4⟩⟩

/-- The head, always of stream 0, and eight octets. -/
def encode (frame : GoAway) : List Byte :=
  Head.encode ⟨.goAway, 0, StreamId.zero⟩ 8 ++
    (put32 frame.lastStreamId.raw ++ put32 frame.errorCode.code)

/-- What goes to the socket. -/
def writeTo (frame : GoAway) : List Byte := frame.encode

/-- What `load` accepts, and the frame it returns. -/
theorem load_eq_ok {payload : List Byte} {frame : GoAway} :
    load payload = .ok frame ↔ 8 ≤ payload.length ∧
      frame = ⟨⟨be32 (payload.take 4) &&& ~~~StreamId.mask⟩, ⟨be32 ((payload.drop 4).take 4)⟩⟩ := by
  unfold load
  split
  next short =>
    have fewer : ¬ 8 ≤ payload.length := Nat.not_le.mpr short
    simp [fewer]
  next enough =>
    have eight : 8 ≤ payload.length := Nat.not_lt.mp enough
    rw [unpackOctets4_take (by omega)]
    simp [eight, eq_comm, StreamId.parse, List.take_take]

end GoAway

/-- A WINDOW_UPDATE frame. -/
structure WindowUpdate where
  streamId : StreamId
  sizeIncrement : Word
deriving DecidableEq, Repr

namespace WindowUpdate

/-- The reserved bit of the increment. -/
def sizeIncrementMask : Word := 1 <<< 31

/-- Four octets, whose reserved bit is cleared. An increment of zero is refused. -/
def load (head : Head) (payload : List Byte) : Except Error WindowUpdate :=
  if payload.length ≠ 4 then .error .badFrameSize
  else
    let sizeIncrement := unpackOctets4 payload 0 &&& ~~~sizeIncrementMask
    if sizeIncrement = 0 then .error .invalidWindowUpdateValue
    else .ok ⟨head.streamId, sizeIncrement⟩

/-- The head and the increment. -/
def encode (frame : WindowUpdate) : List Byte :=
  Head.encode ⟨.windowUpdate, 0, frame.streamId⟩ 4 ++ put32 frame.sizeIncrement

/-- What goes to the socket. -/
def writeTo (frame : WindowUpdate) : List Byte := frame.encode

/-- What `load` accepts, and the frame it returns. -/
theorem load_eq_ok {head : Head} {payload : List Byte} {frame : WindowUpdate} :
    load head payload = .ok frame ↔ payload.length = 4 ∧
      be32 payload &&& ~~~sizeIncrementMask ≠ 0 ∧
      frame = ⟨head.streamId, be32 payload &&& ~~~sizeIncrementMask⟩ := by
  unfold load
  split
  next short => simp [short]
  next four =>
    rw [Classical.not_not] at four
    rw [unpackOctets4_take (by omega), List.drop_zero, List.take_of_length_le (by omega)]
    simp only []
    split
    next zero => simp [zero]
    next positive =>
      rw [Except.ok.injEq, @eq_comm _ _ frame]
      exact ⟨fun is => ⟨four, positive, is⟩, fun ⟨_, _, is⟩ => is⟩

end WindowUpdate

/-- A GOAWAY payload reads back when its stream identifier has 31 bits. -/
theorem GoAway.load_payload (frame : GoAway) (valid : frame.lastStreamId.Valid) :
    load (put32 frame.lastStreamId.raw ++ put32 frame.errorCode.code) = .ok frame := by
  refine load_eq_ok.mpr ⟨by simp, ?_⟩
  rw [List.take_left' (put32_length _), List.drop_left' (put32_length _),
    List.take_of_length_le (by simp), be32_put32, be32_put32, StreamId.cleared_of_lt valid]

/-- A WINDOW_UPDATE payload reads back when its increment is in range. -/
theorem WindowUpdate.load_payload (frame : WindowUpdate) (head : Head)
    (stream : head.streamId = frame.streamId) (small : frame.sizeIncrement.toNat < 2 ^ 31)
    (positive : frame.sizeIncrement ≠ 0) : load head (put32 frame.sizeIncrement) = .ok frame := by
  have cleared : frame.sizeIncrement &&& ~~~sizeIncrementMask = frame.sizeIncrement :=
    StreamId.cleared_of_lt small
  refine load_eq_ok.mpr ⟨put32_length _, ?_, ?_⟩
  · rwa [be32_put32, cleared]
  · rw [be32_put32, cleared, stream]

end H2l
