import H2l.Link.Read

/-!
# The client's handshake and read loop

`Client::handshake` and the frame readers of `Client::read_loop`, up to the exit
of its frame loop.
-/

namespace H2l

open Base

/-- Why a client handshake failed. -/
inductive HandshakeError where
  | frame (err : Error)
  | unknownProtocol
  | io (err : IoError)
deriving DecidableEq, Repr

namespace Client

/-- Size of the buffer that receives the server's first frame. -/
def handshakeCapacity : Nat := 1024

/-- The first frame of the server, after the preface was written. -/
def readServerSettings (stream : TcpStream) : Outcome HandshakeError Settings × TcpStream :=
  match stream.readExact 9 with
  | (.error err, after) => (.err (.io err), after)
  | (.ok buffer, after) =>
      let length := Head.payloadLength buffer
      let head := Head.parse buffer
      if head.kind = .settings then
        if handshakeCapacity < length then (.panic .slice, after)
        else
          match after.readExact length with
          | (.error err, final) => (.err (.io err), final)
          | (.ok data, final) =>
              match Settings.load head data with
              | .ok settings => (.ok settings, final)
              | .error err => (.err (.frame err), final)
      else (.err .unknownProtocol, after)

/-- Preface and settings go out; the first frame that comes back must be SETTINGS. -/
def handshake (stream : TcpStream) : Outcome HandshakeError Settings × TcpStream :=
  match stream.writeAll Consts.http20Preface with
  | (.error err, after) => (.err (.io err), after)
  | (.ok (), opened) =>
      match opened.writeAll Consts.http20Settings with
      | (.error err, after) => (.err (.io err), after)
      | (.ok (), greeted) => readServerSettings greeted

/-- Nine bytes, and the payload length in the first three of them. -/
def readFrameHead (input : TcpInput) : Except Error (Head × Nat) × TcpInput := readHead input

/-- A frame of a kind that is not handled is read whole and dropped. -/
def discardUnknownFrame (_head : Head) (length : Nat) (input : TcpInput) :
    Outcome Error Frame × TcpInput :=
  readBody length (fun _ => .ok .unknown) input

/-- A received DATA frame is loaded with the flags of its header. -/
def readDataFrame (head : Head) (length : Nat) (input : TcpInput) :
    Outcome Error Frame × TcpInput :=
  readBody length (fun data => (Outcome.ofExcept (Data.load head data)).map .data) input

/-- A received HEADERS frame keeps only its stream: the flags are rebuilt. -/
def readHeadersFrame (head : Head) (length : Nat) (input : TcpInput) :
    Outcome Error Frame × TcpInput :=
  readBody length (fun data => .ok (Frame.withHeaders head.streamId data)) input

/-- The buffer is an array of 256 bytes. -/
def readSettingsFrame (head : Head) (length : Nat) (input : TcpInput) :
    Outcome Error Frame × TcpInput :=
  readWithin 256 length
    (fun data => (Outcome.ofExcept (Settings.load head data)).map .settings) input

/-- A GOAWAY frame, whatever stream its header names. -/
def readGoAwayFrame (_head : Head) (length : Nat) (input : TcpInput) :
    Outcome Error Frame × TcpInput :=
  readBody length (fun data => (Outcome.ofExcept (GoAway.load data)).map .goAway) input

/-- Four bytes are read whatever the header says. -/
def readWindowUpdateFrame (head : Head) (_length : Nat) (input : TcpInput) :
    Outcome Error Frame × TcpInput :=
  readBody 4 (fun data => (Outcome.ofExcept (WindowUpdate.load head data)).map .windowUpdate) input

/-- The dispatch on the kind of a frame. -/
def readPayload (head : Head) (length : Nat) (input : TcpInput) :
    Outcome Error Frame × TcpInput :=
  match head.kind with
  | .data => readDataFrame head length input
  | .headers => readHeadersFrame head length input
  | .settings => readSettingsFrame head length input
  | .goAway => readGoAwayFrame head length input
  | .windowUpdate => readWindowUpdateFrame head length input
  | _ => discardUnknownFrame head length input

/-- One turn of the frame loop, up to the frame it delivers. -/
def readFrame (input : TcpInput) : Outcome Error Frame × TcpInput :=
  match readFrameHead input with
  | (.ok (head, length), after) => readPayload head length after
  | (.error err, after) => (.err err, after)

/-- The frame phase of the read loop. -/
def frameLoop (input : TcpInput) : Trace TcpInput Error Frame :=
  Loop.run (fun input => input.content.length) readFrame input

/-- How a connection ended: its handshake failed, or its frame loop came to an end. -/
inductive SessionEnd where
  | refused (err : HandshakeError)
  | left (exit : Exit Error)
  | panicked (cause : Panic)
deriving DecidableEq, Repr

/-- The handshake and then the frame phase on what it left unread. -/
def session (stream : TcpStream) : SessionEnd :=
  match handshake stream with
  | (.err err, _) => .refused err
  | (.panic cause, _) => .panicked cause
  | (.ok _, after) =>
      match (frameLoop after.input).exit with
      | .panicked cause => .panicked cause
      | exit => .left exit

end Client

end H2l
