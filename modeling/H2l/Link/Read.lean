import H2l.Base.Loop
import H2l.Net
import H2l.Transaction

/-!
# The server's read loop

`Link::handshake` and the frame readers of `Link::read_loop`. The HTTP/1.1
parser is a parameter; it sees the whole zero-filled buffer.
-/

namespace H2l

open Base

/-- One parsed HTTP/1.1 header. -/
structure HttpHeader where
  name : String
  value : List Byte
deriving DecidableEq, Repr

/-- What the HTTP/1.1 parser reports on a buffer. -/
inductive HttpStatus where
  | complete (headers : List HttpHeader)
  | incomplete
  | invalid
deriving DecidableEq, Repr

/-- The third-party HTTP/1.1 parser. -/
abbrev HttpParser := List Byte → HttpStatus

namespace Consts

/-- The text `HTTP/1.1 101 Switching Protocols` with its two headers. -/
def http11SwitchingProtocols : List Byte :=
  ("HTTP/1.1 101 Switching Protocols\r\nConnection: Upgrade\r\nUpgrade: h2c\r\n\r\n").toList.map
    fun char => BitVec.ofNat 8 char.toNat

/-- The client connection preface. -/
def http20Preface : List Byte :=
  ("PRI * HTTP/2.0\r\n\r\nSM\r\n\r\n").toList.map fun char => BitVec.ofNat 8 char.toNat

/-- The SETTINGS frame a client sends after the preface. -/
def http20Settings : List Byte :=
  [0x00, 0x00, 0x12, 0x04, 0x00, 0x00, 0x00, 0x00, 0x00, 0x00, 0x03, 0x00, 0x00, 0x00, 0x64,
    0x00, 0x04, 0x40, 0x00, 0x00, 0x00, 0x00, 0x02, 0x00, 0x00, 0x00, 0x00]

/-- The header value that asks for HTTP/2 over cleartext TCP. -/
def h2c : List Byte := [0x68, 0x32, 0x63]

end Consts

namespace Link

/-- Size of the buffer of the HTTP/1.1 upgrade. -/
def upgradeCapacity : Nat := 4098

/-- The bytes received so far and the zeros that fill the rest of the buffer. -/
def upgradeBuffer (received : List Byte) : List Byte :=
  received ++ List.replicate (upgradeCapacity - received.length) 0

/-- Some header is `Upgrade: h2c`. -/
def asksUpgrade (headers : List HttpHeader) : Bool :=
  headers.any fun header => header.name == "Upgrade" && header.value == Consts.h2c

/-- One read appended to the bytes already fetched, parsed together with the zeros after
it. A buffer that does not parse unwinds. -/
def handshakeHttp11Upgrade (parse : HttpParser) (fetched : List Byte) (stream : TcpStream) :
    Outcome IoError Unit × TcpStream :=
  match stream.read (upgradeCapacity - fetched.length) with
  | (.error err, after) => (.err err, after)
  | (.ok data, after) =>
      match parse (upgradeBuffer (fetched ++ data)) with
      | .invalid => (.panic .unwrap, after)
      | .incomplete => (.err (.unsupported "Not HTTP/1.1 Upgrade: h2c"), after)
      | .complete headers =>
          if asksUpgrade headers then
            match after.writeAll Consts.http11SwitchingProtocols with
            | (.ok (), final) => (.ok (), final)
            | (.error err, final) => (.err err, final)
          else (.err (.unsupported "Not HTTP/1.1 Upgrade: h2c"), after)

/-- The preface is read whole; other bytes are handed back with the error. -/
def handshakeHttp2PriorKnowledge (stream : TcpStream) :
    Except (IoError × Option (List Byte)) Unit × TcpStream :=
  match stream.readExact 24 with
  | (.ok magic, after) =>
      if magic = Consts.http20Preface then (.ok (), after)
      else (.error (.unsupported "Not HTTP/2.0", some magic), after)
  | (.error err, after) => (.error (err, none), after)

/-- The preface after an upgrade. -/
def handshakeUpgraded (stream : TcpStream) : Outcome IoError Unit × TcpStream :=
  match handshakeHttp2PriorKnowledge stream with
  | (.ok (), after) => (.ok (), after)
  | (.error (err, _), after) => (.err err, after)

/-- The handshake. An I/O error of the first preface read is not reported. -/
def handshake (parse : HttpParser) (stream : TcpStream) : Outcome IoError Unit × TcpStream :=
  match handshakeHttp2PriorKnowledge stream with
  | (.error (_, some data), after) =>
      match handshakeHttp11Upgrade parse data after with
      | (.ok (), upgraded) => handshakeUpgraded upgraded
      | (.err err, final) => (.err err, final)
      | (.panic cause, final) => (.panic cause, final)
  | (.error (_, none), after) => (.ok (), after)
  | (.ok (), after) => (.ok (), after)

/-- Nine bytes, and the payload length in the first three of them. -/
def readFrameHead (input : TcpInput) : Except Error (Head × Nat) × TcpInput := readHead input

/-- A received DATA frame is built from its stream and payload: the flags are dropped. -/
def readDataFrame (head : Head) (length : Nat) (input : TcpInput) :
    Outcome Error Frame × TcpInput :=
  readBody length (fun data => Frame.withData head.streamId data) input

/-- A received HEADERS frame keeps only its stream: the flags are rebuilt. -/
def readHeadersFrame (head : Head) (length : Nat) (input : TcpInput) :
    Outcome Error Frame × TcpInput :=
  readBody length (fun data => .ok (Frame.withHeaders head.streamId data)) input

/-- The buffer is an array of 256 bytes. -/
def readSettingsFrame (head : Head) (length : Nat) (input : TcpInput) :
    Outcome Error Frame × TcpInput :=
  readWithin 256 length
    (fun data => (Outcome.ofExcept (Settings.load head data)).map .settings) input

/-- A GOAWAY frame, whatever stream its header names. -/
def readGoAwayFrame (_head : Head) (length : Nat) (input : TcpInput) :
    Outcome Error Frame × TcpInput :=
  readBody length (fun data => (Outcome.ofExcept (GoAway.load data)).map .goAway) input

/-- Four bytes are read whatever the header says. -/
def readWindowUpdateFrame (head : Head) (_length : Nat) (input : TcpInput) :
    Outcome Error Frame × TcpInput :=
  readBody 4 (fun data => (Outcome.ofExcept (WindowUpdate.load head data)).map .windowUpdate) input

/-- The dispatch on the kind of a frame. -/
def readPayload (head : Head) (length : Nat) (input : TcpInput) :
    Outcome Error Frame × TcpInput :=
  match head.kind with
  | .data => readDataFrame head length input
  | .headers => readHeadersFrame head length input
  | .settings => readSettingsFrame head length input
  | .goAway => readGoAwayFrame head length input
  | .windowUpdate => readWindowUpdateFrame head length input
  | _ => (.panic .unreachable, input)

/-- One turn of the frame loop, up to the frame it delivers. -/
def readFrame (input : TcpInput) : Outcome Error Frame × TcpInput :=
  match readFrameHead input with
  | (.ok (head, length), after) => readPayload head length after
  | (.error err, after) => (.err err, after)

/-- The frame loop; every turn consumes input, which bounds the number of turns. -/
def frameLoop (input : TcpInput) : Trace TcpInput Error Frame :=
  Loop.run (fun input => input.content.length) readFrame input

/-- The flags stored in a word, decoded by an exact match. -/
def flags (word : Word) : LinkFlags :=
  if word = 0x1 then .readClosed
  else if word = 0x2 then .writeClosed
  else if word = 0x3 then .readWriteClosed
  else if word = 0x4 then .attached
  else if word = 0x8 then .detached
  else .none

/-- The word stored by `add_flags` after it loaded `word`. -/
def addFlags (val : LinkFlags) (word : Word) : Word := (FlagSet.union (flags word) val).bits

/-- What one run of the read loop did: the transactions sent, the flags word it left and
the panic that ended it, if any. -/
structure ReadReport where
  sent : List Transaction
  word : Word
  panic : Option Panic

/-- The whole read loop, run while nothing else touches the flags word. A failed
handshake is only logged: the frame loop starts whatever it returned. -/
def readLoop (parse : HttpParser) (token : Token) (word : Word) (stream : TcpStream) :
    ReadReport :=
  match handshake parse stream with
  | (.panic cause, _) => ⟨[], word, some cause⟩
  | (_, after) =>
      let trace := frameLoop after.input
      let frames := trace.delivered.map fun delivery => .frame delivery.1 (some token)
      match trace.exit with
      | .panicked cause => ⟨frames, word, some cause⟩
      | _ =>
          let closed := addFlags .readClosed word
          ⟨frames ++ [.linkChanged (flags closed) token], closed, none⟩

end Link

end H2l
