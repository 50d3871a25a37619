import H2l.Base.FlagSet
import H2l.Base.Octets
import H2l.Base.Outcome

/-!
# Frame headers

The nine bytes before every payload: a 24-bit length, a kind, flags and a stream
identifier whose top bit is reserved. The length is read beside the header by
the endpoints and handed to `Head.encode` by the writers, so it is not a field
of `Head`.
-/

namespace H2l

open Base

/-- A 32-bit word. -/
abbrev Word := BitVec 32

/-- The I/O errors that the readers meet or build. -/
inductive IoError where
  | unexpectedEof
  | unsupported (message : String)
  | os (code : Nat)
deriving DecidableEq, Repr

/-- Errors of parsing a frame. -/
inductive Error where
  | badFrameSize
  | tooMuchPadding
  | invalidSettingValue
  | invalidWindowUpdateValue
  | invalidPayloadLength
  | invalidPayloadAckSettings
  | invalidStreamId
  | malformedMessage
  | invalidDependencyId
  | io (err : IoError)
deriving DecidableEq, Repr

/-- Four bytes from an offset, as `unpack_octets_4!` assembles them. -/
def unpackOctets4 (buf : List Byte) (offset : Nat) : Word :=
  (buf.getD offset 0).setWidth 32 <<< 24 ||| (buf.getD (offset + 1) 0).setWidth 32 <<< 16 |||
    (buf.getD (offset + 2) 0).setWidth 32 <<< 8 ||| (buf.getD (offset + 3) 0).setWidth 32 <<< 0

/-- The macro reads the big-endian word at the offset. -/
theorem unpackOctets4_eq (buf : List Byte) (offset : Nat) :
    unpackOctets4 buf offset = be32 [buf.getD offset 0, buf.getD (offset + 1) 0,
      buf.getD (offset + 2) 0, buf.getD (offset + 3) 0] :=
  shifted_octets _ _ _ _

/-- Four bytes inside a buffer. -/
theorem unpackOctets4_take {buf : List Byte} {offset : Nat} (inside : offset + 4 ≤ buf.length) :
    unpackOctets4 buf offset = be32 ((buf.drop offset).take 4) := by
  have shifted : ∀ index, buf.getD (offset + index) 0 = (buf.drop offset).getD index 0 := by
    intro index
    simp only [List.getD_eq_getElem?_getD, List.getElem?_drop]
  have long : 4 ≤ (buf.drop offset).length := by rw [List.length_drop]; omega
  rw [unpackOctets4_eq, shifted 1, shifted 2, shifted 3, ← Nat.add_zero offset, shifted 0,
    Nat.add_zero]
  match buf.drop offset, long with
  | a :: b :: c :: d :: rest, _ => rfl

/-- A stream identifier. The field is public, so the reserved bit may be set. -/
structure StreamId where
  raw : Word
deriving DecidableEq, Repr

namespace StreamId

/-- The reserved top bit. -/
def mask : Word := 1 <<< 31

/-- The connection itself. -/
def zero : StreamId := ⟨0⟩

/-- The id of the connection itself. -/
def isZero (id : StreamId) : Bool := id.raw == 0

/-- Stream 0 is the connection itself. -/
theorem isZero_iff (id : StreamId) : id.isZero = true ↔ id = zero := by
  cases id
  simp [isZero, zero]

/-- Read an identifier and its reserved bit from the first four bytes. -/
def parse (buf : List Byte) : StreamId × Bool :=
  let unpacked := be32 (buf.take 4)
  (⟨unpacked &&& ~~~mask⟩, unpacked &&& mask == mask)

/-- An identifier of 31 bits. -/
def Valid (id : StreamId) : Prop := id.raw.toNat < 2 ^ 31

instance (id : StreamId) : Decidable id.Valid := inferInstanceAs (Decidable (_ < _))

/-- Clearing the reserved bit reduces the word modulo 2^31. -/
theorem cleared_toNat (word : Word) : (word &&& ~~~mask).toNat = word.toNat % 2 ^ 31 := by
  have low : (~~~mask).toNat = 2 ^ 31 - 1 := by decide
  rw [BitVec.toNat_and, low, Nat.and_two_pow_sub_one_eq_mod]

/-- A number below 2^31 has no reserved bit to clear. -/
theorem cleared_of_lt {word : Word} (small : word.toNat < 2 ^ 31) : word &&& ~~~mask = word := by
  apply BitVec.eq_of_toNat_eq
  rw [cleared_toNat, Nat.mod_eq_of_lt small]

/-- Every parsed identifier has 31 bits. -/
theorem parse_valid (buf : List Byte) : (parse buf).1.Valid := by
  simp only [parse, Valid, cleared_toNat]
  omega

/-- The stream of four bytes is their number without its highest bit. -/
theorem parse_of_length {buf : List Byte} (four : buf.length = 4) :
    parse buf = (⟨be32 buf &&& ~~~mask⟩, be32 buf &&& mask == mask) := by
  rw [parse, List.take_of_length_le (by omega)]

/-- A stream is parsed from its four bytes, whatever follows them. -/
@[simp] theorem parse_put32 (word : Word) (rest : List Byte) :
    parse (put32 word ++ rest) = (⟨word &&& ~~~mask⟩, word &&& mask == mask) := by
  have taken : (put32 word ++ rest).take 4 = put32 word := List.take_left' (put32_length word)
  simp [parse, taken]

end StreamId

/-- The kinds of frame, in the order of their codes. -/
inductive Kind where
  | data
  | headers
  | priority
  | reset
  | settings
  | pushPromise
  | ping
  | goAway
  | windowUpdate
  | continuation
  | binCode
  | unknown
deriving DecidableEq, Repr

namespace Kind

/-- The byte of a kind, as `kind as u8` yields it. -/
def code : Kind → Byte
  | data => 0
  | headers => 1
  | priority => 2
  | reset => 3
  | settings => 4
  | pushPromise => 5
  | ping => 6
  | goAway => 7
  | windowUpdate => 8
  | continuation => 9
  | binCode => 10
  | unknown => 11

/-- The table `From<usize> for Kind`. The code of `binCode` is not listed. -/
def fromUsize : Nat → Kind
  | 0 => data
  | 1 => headers
  | 2 => priority
  | 3 => reset
  | 4 => settings
  | 5 => pushPromise
  | 6 => ping
  | 7 => goAway
  | 8 => windowUpdate
  | 9 => continuation
  | _ => unknown

/-- The kind with this code. -/
def new (kind : Byte) : Kind := fromUsize kind.toNat

/-- The code and the table agree on every kind but `binCode`, which reads as `unknown`. -/
theorem new_code (kind : Kind) : new kind.code = if kind = binCode then unknown else kind := by
  cases kind <;> decide

end Kind

/-- A frame header without its length. -/
structure Head where
  kind : Kind
  flags : Byte
  streamId : StreamId
deriving DecidableEq, Repr

namespace Head

/-- Parse a frame header. The callers pass at least nine bytes. -/
def parse (header : List Byte) : Head where
  kind := Kind.new (header.getD 3 0)
  flags := header.getD 4 0
  streamId := (StreamId.parse (header.drop 5)).1

/-- The 24-bit length in front of a header. -/
def payloadLength (header : List Byte) : Nat := beNat (header.take 3)

/-- The nine bytes of a header. Only the low 24 bits of the length are written. -/
def encode (head : Head) (payloadLen : Nat) : List Byte :=
  toBe 3 payloadLen ++ [head.kind.code] ++ [head.flags] ++ put32 head.streamId.raw

/-- A header has nine bytes. -/
@[simp] theorem encode_length (head : Head) (payloadLen : Nat) :
    (head.encode payloadLen).length = 9 := by
  simp [encode]

/-- The length is written with 24 bits. -/
theorem payloadLength_encode (head : Head) (payloadLen : Nat) (rest : List Byte) :
    payloadLength (head.encode payloadLen ++ rest) = payloadLen % 2 ^ 24 := by
  have taken : (head.encode payloadLen ++ rest).take 3 = toBe 3 payloadLen := by
    simp only [encode, List.append_assoc]
    exact List.take_left' (toBe_length 3 payloadLen)
  calc payloadLength (head.encode payloadLen ++ rest)
      = beNat (toBe 3 payloadLen) := by rw [payloadLength, taken]
    _ = payloadLen % 256 ^ 3 := beNat_toBe 3 payloadLen
    _ = payloadLen % 2 ^ 24 := rfl

/-- Parsing an encoded header clears the reserved bit and maps the kind through the table. -/
theorem parse_encode (head : Head) (payloadLen : Nat) (rest : List Byte) :
    parse (head.encode payloadLen ++ rest) =
      ⟨Kind.new head.kind.code, head.flags, ⟨head.streamId.raw &&& ~~~StreamId.mask⟩⟩ := by
  obtain ⟨a, b, c, length⟩ : ∃ a b c, toBe 3 payloadLen = [a, b, c] := ⟨_, _, _, rfl⟩
  simp [parse, encode, length]

/-- A parsed identifier has 31 bits. -/
theorem parse_streamId_valid (header : List Byte) : (parse header).streamId.Valid :=
  StreamId.parse_valid _

end Head

end H2l
