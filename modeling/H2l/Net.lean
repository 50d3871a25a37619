import H2l.Base.Source
import H2l.Frame.Basic

/-!
# Sockets and the shape shared by the frame readers

The peer decides what arrives, in which pieces, and how many writes succeed
before the connection breaks. `readHead` and `readBody` are the two shapes that
the readers of both endpoints repeat.
-/

namespace H2l

open Base

/-- Everything a peer will send on one connection. -/
abbrev TcpInput := Source Byte IoError

namespace TcpInput

/-- `read_exact`. -/
def readExact (count : Nat) (input : TcpInput) : Except IoError (List Byte) × TcpInput :=
  Source.readExact .unexpectedEof count input

end TcpInput

/-- A connected stream: its input, how many more `write_all` calls succeed, and what
they have written. -/
structure TcpStream where
  input : TcpInput
  writable : Nat
  sent : List Byte

namespace TcpStream

/-- Fill a buffer of `count` bytes from the peer. -/
def readExact (count : Nat) (stream : TcpStream) : Except IoError (List Byte) × TcpStream :=
  let (result, input) := TcpInput.readExact count stream.input
  (result, { stream with input })

/-- Take what the peer has sent, `limit` bytes at most. -/
def read (limit : Nat) (stream : TcpStream) : Except IoError (List Byte) × TcpStream :=
  let (result, input) := stream.input.read limit
  (result, { stream with input })

/-- Hand bytes to the peer, until the connection breaks. -/
def writeAll (data : List Byte) (stream : TcpStream) : Except IoError Unit × TcpStream :=
  match stream.writable with
  | 0 => (.error (.os 32), stream)
  | writable + 1 => (.ok (), { stream with writable, sent := stream.sent ++ data })

end TcpStream

/-- Read a header and the length in front of it. -/
def readHead (input : TcpInput) : Except Error (Head × Nat) × TcpInput :=
  match input.readExact 9 with
  | (.ok buffer, after) => (.ok (Head.parse buffer, Head.payloadLength buffer), after)
  | (.error err, after) => (.error (.io err), after)

/-- Fill a buffer of `length` bytes and decode it. -/
def readBody (length : Nat) (decode : List Byte → Outcome Error Frame) (input : TcpInput) :
    Outcome Error Frame × TcpInput :=
  match input.readExact length with
  | (.ok data, after) => (decode data, after)
  | (.error err, after) => (.err (.io err), after)

/-- Read into the leading `length` bytes of an array of `capacity`; the slice panics when
the array is shorter. -/
def readWithin (capacity length : Nat) (decode : List Byte → Outcome Error Frame)
    (input : TcpInput) : Outcome Error Frame × TcpInput :=
  if capacity < length then (.panic .slice, input) else readBody length decode input

/-- With nine bytes or more the header is read. -/
theorem readHead_of_le {input : TcpInput} (enough : 9 ≤ input.content.length) :
    ∃ after, readHead input =
        (.ok (Head.parse (input.content.take 9), Head.payloadLength (input.content.take 9)),
          after) ∧
      after.content = input.content.drop 9 ∧ after.ending = input.ending := by
  obtain ⟨after, reads, rest, ending⟩ := Source.readExact_of_le IoError.unexpectedEof enough
  exact ⟨after, by simp only [readHead, TcpInput.readExact, reads], rest, ending⟩

theorem readHead_of_lt {input : TcpInput} (short : input.content.length < 9) :
    ∃ after, readHead input = (.error (.io (input.shortage .unexpectedEof)), after) := by
  obtain ⟨after, reads, -⟩ := Source.readExact_of_lt IoError.unexpectedEof short
  exact ⟨after, by simp only [readHead, TcpInput.readExact, reads]⟩

/-- With enough bytes the payload is read and decoded. -/
theorem readBody_of_le {input : TcpInput} {length : Nat} (decode : List Byte → Outcome Error Frame)
    (enough : length ≤ input.content.length) :
    ∃ after, readBody length decode input = (decode (input.content.take length), after) ∧
      after.content = input.content.drop length ∧ after.ending = input.ending := by
  obtain ⟨after, reads, rest, ending⟩ := Source.readExact_of_le IoError.unexpectedEof enough
  exact ⟨after, by simp only [readBody, TcpInput.readExact, reads], rest, ending⟩

theorem readBody_of_lt {input : TcpInput} {length : Nat} (decode : List Byte → Outcome Error Frame)
    (short : input.content.length < length) :
    ∃ after, readBody length decode input =
      (.err (.io (input.shortage .unexpectedEof)), after) := by
  obtain ⟨after, reads, -⟩ := Source.readExact_of_lt IoError.unexpectedEof short
  exact ⟨after, by simp only [readBody, TcpInput.readExact, reads]⟩

end H2l
