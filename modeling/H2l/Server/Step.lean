import H2l.Server.State

/-!
# The steps of a server

One label for each task and for each thing that the network, the clock or user
code decides. `serverMachine` lets every task take its next step at any moment. What a peer
sends is finite and ends, so that a read loop can always go on.
-/

namespace H2l

open Base

/-- Who moves, and what the outside decides. User code shuts the server down, finds links and sends;
it is taken not to call `Link::add_flags`, `clear_flags` or `set_flags`, nor to use a link's
socket, which have no label here. -/
inductive ServerLabel where
  | bind (succeeded : Bool)
  | connect (token : Token) (stream : TcpStream)
  /-- The listener yields no stream. -/
  | endAccept
  | timeout
  | register
  | announceExit
  | read (link : LinkRef)
  | write (link : LinkRef) (written : Bool)
  | forward
  | main
  | shutdown
  | find (token : Token)
  | drop (link : LinkRef)
  | send (link : LinkRef) (tr : Transaction)
  | sendTo (token : Token) (tr : Transaction)

namespace ServerState

/-- A link with the next place of an exit sequence; its message goes to the shared channel. -/
def exitStep (state : ServerState) (ref : LinkRef) (link : LinkState) :
    Option LinkFlags → Option ServerState
  | none => some (state.setLink ref link)
  | some flags =>
      (state.enqueue ⟨.linkChanged flags link.token, some ref⟩).map fun sent =>
        sent.setLink ref link

/-- One step of `Link::read_loop`. -/
def readStep (parse : HttpParser) (state : ServerState) (ref : LinkRef) (link : LinkState) :
    Option ServerState :=
  match link.reader with
  | .handshaking stream =>
      match Link.handshake parse stream with
      | (.panic _, _) => some (state.setLink ref { link with reader := .panicked })
      | (_, after) => some (state.setLink ref { link with reader := .reading after.input })
  | .reading input =>
      match Link.readFrame input with
      | (.ok frame, rest) => some (state.setLink ref { link with reader := .delivering frame rest })
      | (.err _, _) => some (state.setLink ref { link with reader := .closing .load })
      | (.panic _, _) => some (state.setLink ref { link with reader := .panicked })
  | .delivering frame rest =>
      (state.enqueue ⟨.frame frame (some link.token), some ref⟩).map fun sent =>
        sent.setLink ref { link with reader := .reading rest }
  | .closing pc =>
      (pc.advance .reader link.word).bind fun (next, word, message) =>
        state.exitStep ref { link with word, reader := .closing next } message
  | .panicked => none

/-- One step of `Link::write_loop`. A write of no bytes cannot fail. -/
def writeStep (state : ServerState) (ref : LinkRef) (written : Bool) (link : LinkState) :
    Option ServerState :=
  match link.writer with
  | .receiving =>
      link.outgoing.recv.map fun (tr, outgoing) =>
        state.setLink ref { link with outgoing, writer := .received tr }
  | .writing tr =>
      if written || tr.emitted.isEmpty then
        some (state.setLink ref { link with writer := .receiving })
      else some (state.setLink ref { link with writer := .closing .load })
  | .closing pc =>
      (pc.advance .writer link.word).bind fun (next, word, message) =>
        state.exitStep ref { link with word, writer := .closing next } message

/-- `send_to(..).unwrap()` in the forward loop. -/
def sendUnwrap (state : ServerState) (token : Token) (tr : Transaction) (next : ForwardPc) :
    ServerState :=
  match state.sendTo token tr with
  | .ok sent => { sent with forward := next }
  | .error _ => { state with forward := .panicked }

/-- The match of the forward loop on a frame. -/
def handleFrame (state : ServerState) (frame : Frame) (token : Option Token) : ServerState :=
  match frame with
  | .data _ | .headers _ => { state with forward := .calling (.frame frame token) false }
  | .settings settings =>
      if settings.isAck then { state with forward := .receiving }
      else
        state.sendUnwrap (token.getD ⟨0⟩) (.frame (.settings settings) token) (.acknowledging token)
  | _ => { state with forward := .receiving }

/-- The match of the forward loop on the flags of a link. -/
def handleLinkChanged (state : ServerState) (flags : LinkFlags) (token : Token) : ServerState :=
  match linkChangedArm flags with
  | .notify =>
      match state.sendTo token (.linkChanged flags token) with
      | .ok sent => { sent with forward := .receiving }
      | .error _ => { state with forward := .receiving }
  | .detach => { state.remove token with forward := .calling (.linkChanged .detached token) false }
  | .ignore => { state with forward := .receiving }

/-- The match of the forward loop on a transaction, up to the call of the closure. -/
def handle (state : ServerState) : Transaction → ServerState
  | .frame frame token => state.handleFrame frame token
  | .newLink ref =>
      { state.insert (state.tokenOf ref) ref with
        forward := .calling (.linkChanged .attached (state.tokenOf ref)) false }
  | .linkChanged flags token => state.handleLinkChanged flags token
  | .serverChanged flags =>
      if flags = .acceptLoopExited then
        { state with forward := .calling (.serverChanged .forwardLoopExited) true }
      else { state with forward := .receiving }
  | tr => { state with forward := .calling tr false }

/-- One step of `Server::forward_loop`. -/
def forwardStep (state : ServerState) : Option ServerState :=
  match state.forward with
  | .receiving =>
      state.channel.recv.map fun (message, channel) =>
        { state with
          channel, forward := .handling message, consumed := state.consumed ++ [message] }
  | .handling message => some (state.handle message.body)
  | .acknowledging token =>
      some (state.sendUnwrap (token.getD ⟨0⟩) (.frame (.settings Settings.ack) token) .receiving)
  | .calling tr last =>
      some { state with
        callbacks := state.callbacks ++ [tr], forward := if last then .exited else .receiving }
  | .exited | .panicked => none

/-- One step of `Server::accept_loop` or of the thread that waits for both loops. -/
def acceptStep (state : ServerState) : ServerLabel → Option ServerState
  | .bind succeeded =>
      if state.accept = .binding then
        some { state with accept := if succeeded then .accepting else .returned }
      else none
  | .connect token stream =>
      if state.accept = .accepting ∧ state.tokenFree token then
        some { state with
          created := state.created ++ [.new token stream]
          accept := .registering ⟨state.created.length⟩ }
      else none
  | .endAccept =>
      if state.accept = .accepting then some { state with accept := .announcing } else none
  | .timeout =>
      if state.accept = .accepting then
        some { state with accept := if state.exitAcceptLoop then .announcing else .accepting }
      else none
  | .register =>
      match state.accept with
      | .registering ref =>
          (state.enqueue ⟨.newLink ref, none⟩).map fun sent => { sent with accept := .accepting }
      | _ => none
  | .announceExit =>
      if state.accept = .announcing then
        (state.enqueue ⟨.serverChanged .acceptLoopExited, none⟩).map fun sent =>
          { sent with accept := .returned }
      else none
  | .main =>
      match state.main with
      | .awaitingAccept =>
          if state.accept = .returned then some { state with main := .awaitingForward } else none
      | .awaitingForward =>
          if state.forward = .exited then
            some { state with
              main := .returned
              callbacks := state.callbacks ++ [.serverChanged .terminated] }
          else none
      | .returned => none
  | _ => none

/-- What user code may do at any moment. -/
def userStep (state : ServerState) : ServerLabel → Option ServerState
  | .shutdown => some { state with exitAcceptLoop := true }
  | .find token =>
      (state.findLink token).map fun (ref, _) => { state with held := ref :: state.held }
  | .drop ref =>
      if ref ∈ state.held then some { state with held := state.held.erase ref } else none
  | .send ref tr =>
      if ref ∈ state.held then
        (state.link ref).map fun link =>
          match link.send tr with
          | .ok link => state.setLink ref link
          | .error _ => state
      else none
  | .sendTo token tr =>
      match state.sendTo token tr with
      | .ok sent => some sent
      | .error _ => some state
  | _ => none

/-- One step of a task, of a peer or of user code; nothing where the task has to wait. -/
def step (parse : HttpParser) (state : ServerState) : ServerLabel → Option ServerState
  | .read ref => (state.link ref).bind fun link => state.readStep parse ref link
  | .write ref written => (state.link ref).bind fun link => state.writeStep ref written link
  | .forward => state.forwardStep
  | label => (state.acceptStep label).or (state.userStep label)

end ServerState

/-- Every run of a server with the given HTTP/1.1 parser. -/
def serverMachine (parse : HttpParser) : Machine ServerState ServerLabel where
  initial state := state = .start
  step := ServerState.step parse

end H2l
