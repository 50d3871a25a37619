import H2l.Base.Channel
import H2l.Link.Exit

/-!
# The state of a server

The accept loop, the forward loop, the two loops of every link accepted so far,
the shared channel, and what user code holds. Each task has a place in its code;
the steps between two places are atomic.
-/

namespace H2l

open Base

/-- A message of the shared channel. The sender is not part of the message; it records
whose loop sent it. -/
structure Message where
  body : Transaction
  sender : Option LinkRef
deriving DecidableEq

/-- Where a read loop stands. -/
inductive ReaderPc where
  | handshaking (stream : TcpStream)
  /-- At the head of the frame loop. -/
  | reading (input : TcpInput)
  /-- About to send a frame to the shared channel. -/
  | delivering (frame : Frame) (rest : TcpInput)
  | closing (pc : ExitPc)
  | panicked

/-- Where a write loop stands. -/
inductive WriterPc where
  /-- Waiting on the outgoing channel. -/
  | receiving
  /-- About to write to the socket. -/
  | writing (tr : Transaction)
  | closing (pc : ExitPc)
deriving DecidableEq

namespace ReaderPc

/-- The loop has returned or unwound, and dropped its `Arc<Link>`. -/
def ended : ReaderPc → Bool
  | closing .finished | panicked => true
  | _ => false

end ReaderPc

namespace WriterPc

/-- The loop has returned, and dropped its `Arc<Link>` and the outgoing receiver. -/
def ended : WriterPc → Bool
  | closing .finished => true
  | _ => false

/-- The loop no longer receives. -/
def left : WriterPc → Bool
  | closing _ => true
  | _ => false

/-- What the loop does with a transaction it received. -/
def received : Transaction → WriterPc
  | .bytes data token => writing (.bytes data token)
  | .frame frame token => writing (.frame frame token)
  | .linkChanged flags _ =>
      if FlagSet.contains flags LinkFlags.readClosed then closing .load else receiving
  | _ => receiving

end WriterPc

/-- A link and its two loops. -/
structure LinkState where
  token : Token
  word : Word
  outgoing : Channel Transaction 1024
  reader : ReaderPc
  writer : WriterPc

/-- Why a transaction could not be handed to a link. -/
inductive SendError where
  | notFound (text : String)
  | full
  | closed
deriving DecidableEq, Repr

namespace LinkState

/-- `Link::new`: both loops start at once. -/
def new (token : Token) (stream : TcpStream) : LinkState :=
  ⟨token, LinkFlags.none.bits, .empty, .handshaking stream, .receiving⟩

/-- `Link::send`, a `try_send` on the outgoing channel. -/
def send (link : LinkState) (tr : Transaction) : Except SendError LinkState :=
  if link.writer.ended then .error .closed
  else match link.outgoing.trySend tr with
    | some outgoing => .ok { link with outgoing }
    | none => .error .full

end LinkState

/-- Where the accept loop stands. -/
inductive AcceptPc where
  | binding
  /-- Waiting for a connection or for the timeout. -/
  | accepting
  /-- About to send the `NewLink` message of a link. -/
  | registering (link : LinkRef)
  /-- About to send `ACCEPT_LOOP_EXITED`. -/
  | announcing
  | returned
deriving DecidableEq, Repr

/-- Where the forward loop stands. -/
inductive ForwardPc where
  /-- Between two messages. -/
  | receiving
  | handling (message : Message)
  /-- About to send the acknowledgement of a SETTINGS frame. -/
  | acknowledging (token : Option Token)
  /-- About to call the user's closure; the loop ends after the last call. -/
  | calling (tr : Transaction) (last : Bool)
  | exited
  | panicked
deriving DecidableEq

/-- Where the thread of `Server::spawn` stands. -/
inductive MainPc where
  | awaitingAccept
  | awaitingForward
  | returned
deriving DecidableEq, Repr

/-- A running server. -/
structure ServerState where
  exitAcceptLoop : Bool
  links : Token → Option LinkRef
  channel : Channel Message 4096
  /-- Every link accepted so far, indexed by its `LinkRef`. -/
  created : List LinkState
  accept : AcceptPc
  forward : ForwardPc
  main : MainPc
  /-- The `Arc<Link>`s that user code got from `find_link`. -/
  held : List LinkRef
  /-- The messages the forward loop has received. -/
  consumed : List Message
  /-- What the user's closure was called with. -/
  callbacks : List Transaction

namespace ServerState

/-- A server as `spawn` leaves it: no links, and an accept loop about to bind. -/
def start : ServerState :=
  ⟨false, fun _ => none, .empty, [], .binding, .receiving, .awaitingAccept, [], [], []⟩

/-- The link behind an `Arc<Link>`. -/
def link (state : ServerState) (ref : LinkRef) : Option LinkState := state.created[ref.index]?

/-- Change the link behind an `Arc<Link>`. -/
def setLink (state : ServerState) (ref : LinkRef) (link : LinkState) : ServerState :=
  { state with created := state.created.set ref.index link }

/-- The token of a link, the number of its socket. -/
def tokenOf (state : ServerState) (ref : LinkRef) : Token :=
  ((state.link ref).map LinkState.token).getD ⟨0⟩

/-- The link stands in the table under its token. -/
def lists (state : ServerState) (ref : LinkRef) : Bool :=
  state.links (state.tokenOf ref) == some ref

/-- Some `Arc<Link>` of the link is still alive. -/
def isHeld (state : ServerState) (ref : LinkRef) : Bool :=
  state.links (state.tokenOf ref) == some ref ||
    (state.channel.items.any fun message => message.body = .newLink ref) ||
    state.accept == .registering ref ||
    (match state.forward with
      | .handling message => decide (message.body = .newLink ref)
      | _ => false) ||
    state.held.contains ref ||
    (state.link ref).any fun link => !(link.reader.ended && link.writer.ended)

/-- No live link has the token, which is the number of its open socket. -/
def tokenFree (state : ServerState) (token : Token) : Bool :=
  (List.range state.created.length).all fun index =>
    state.tokenOf ⟨index⟩ != token || !state.isHeld ⟨index⟩

/-- Send on the shared channel, waiting while it is full. -/
def enqueue (state : ServerState) (message : Message) : Option ServerState :=
  (state.channel.trySend message).map fun channel => { state with channel }

/-- `find_link`. -/
def findLink (state : ServerState) (token : Token) : Option (LinkRef × LinkState) :=
  (state.links token).bind fun ref => (state.link ref).map fun link => (ref, link)

/-- `send_to`. -/
def sendTo (state : ServerState) (token : Token) (tr : Transaction) :
    Except SendError ServerState :=
  match state.findLink token with
  | none => .error (.notFound ("Link " ++ toString token.raw ++ " not found!"))
  | some (ref, link) =>
      match link.send tr with
      | .ok link => .ok (state.setLink ref link)
      | .error error => .error error

/-- `links.insert`: whatever stood under the token is replaced. -/
def insert (state : ServerState) (token : Token) (ref : LinkRef) : ServerState :=
  { state with links := fun other => if other = token then some ref else state.links other }

/-- `links.remove`. -/
def remove (state : ServerState) (token : Token) : ServerState :=
  { state with links := fun other => if other = token then none else state.links other }

end ServerState

end H2l
