import H2l.Client.State

/-!
# The steps of a client

One label for each task and for each thing that the network, the clock or user
code decides. What a peer sends is finite and ends, so that a read loop can always go on.
-/

namespace H2l

open Base

/-- How an attempt to connect ends. -/
inductive ConnectOutcome where
  | timeout
  | failed
  | connected (token : Nat) (stream : TcpStream)

/-- Who moves, and what the outside decides. User code shuts the client down and sends; it is taken
not to call `add_flags`, `remove_flags`, `clear_flags` or `set_flags`, which have no label here. -/
inductive ClientLabel where
  | mantain
  | connect (outcome : ConnectOutcome)
  /-- The delay before the next attempt is checked. -/
  | wait (elapsed : Bool)
  | read
  | shutSocket (succeeded : Bool)
  | write (written : Bool)
  | forward
  | main
  | shutdown
  | trySend (tr : Transaction)

namespace ClientState

/-- One step of `Client::mantain_loop` that nothing outside decides. -/
def mantainStep (state : ClientState) : Option ClientState :=
  match state.mantain with
  | .head => some { state with mantain := if state.exitLoop then .storeExit else .connecting }
  | .connecting | .delaying => none
  | .storeToken token session =>
      some { state with rawToken := token, mantain := .handshakedLoad session }
  | .handshakedLoad session =>
      some { state with mantain := .handshakedStore (clientFlags state.word) session }
  | .handshakedStore loaded session =>
      some { state with
        word := (FlagSet.union loaded ClientFlags.handshaked).bits, mantain := .loadFlags session }
  | .loadFlags session => some { state with mantain := .loadToken (clientFlags state.word) session }
  | .loadToken flags session =>
      some { state with mantain := .announce flags ⟨state.rawToken⟩ session }
  | .announce flags token session =>
      (state.deliver (.clientChanged flags token)).map fun sent =>
        { sent with mantain := .loadSettingsToken session }
  | .loadSettingsToken session =>
      some { state with mantain := .sendSettings ⟨state.rawToken⟩ session }
  | .sendSettings token session =>
      (state.deliver (.frame (.settings session.settings) (some token))).map fun sent =>
        { sent with mantain := .spawn session.input }
  | .spawn input =>
      some { state with
        reader := some (.reading input), writer := some .receiving, mantain := .awaiting }
  | .awaiting =>
      match state.reader, state.writer with
      | some (.closing .finished), some (.closing .finished) =>
          some { state with reader := none, writer := none, mantain := .removeLoad }
      | some .panicked, _ => some { state with mantain := .panicked }
      | _, _ => none
  | .removeLoad => some { state with mantain := .removeStore (clientFlags state.word) }
  | .removeStore loaded =>
      some { state with
        word := (FlagSet.remove loaded ClientFlags.readWriteClosed).bits, mantain := .clearToken }
  | .clearToken =>
      some { state with
        rawToken := 0, mantain := if state.autoReconnect then .loadReconnected else .storeExit }
  | .loadReconnected =>
      some { state with mantain :=
        if FlagSet.contains (clientFlags state.word) ClientFlags.reconnected then .head
        else .reconnectedLoad }
  | .reconnectedLoad => some { state with mantain := .reconnectedStore (clientFlags state.word) }
  | .reconnectedStore loaded =>
      some { state with
        word := (FlagSet.union loaded ClientFlags.reconnected).bits, mantain := .head }
  | .storeExit => some { state with exitLoop := true, mantain := .exitedLoad }
  | .exitedLoad => some { state with mantain := .exitedStore (clientFlags state.word) }
  | .exitedStore loaded =>
      some { state with
        word := (FlagSet.union loaded ClientFlags.mantainLoopExited).bits, mantain := .returned }
  | .returned | .panicked => none

/-- The attempt to connect and, on a connected stream, the handshake. -/
def connectStep (state : ClientState) (outcome : ConnectOutcome) : Option ClientState :=
  match state.mantain with
  | .connecting =>
      match outcome with
      | .timeout => some { state with mantain := .head }
      | .failed => some { state with mantain := .delaying }
      | .connected token stream =>
          match Client.handshake stream with
          | (.ok settings, after) =>
              some { state with
                connections := state.connections + 1
                mantain := .storeToken token ⟨settings, after.input⟩ }
          | (.err _, _) => some { state with mantain := .storeExit }
          | (.panic _, _) => some { state with mantain := .panicked }
  | _ => none

/-- One round of `delay_until_exit_loop`. -/
def waitStep (state : ClientState) (elapsed : Bool) : Option ClientState :=
  match state.mantain with
  | .delaying =>
      some { state with mantain := if state.exitLoop || elapsed then .head else .delaying }
  | _ => none

/-- One step of `Client::read_loop`. -/
def readStep (state : ClientState) : Option ClientState :=
  match state.reader with
  | some (.reading input) =>
      match Client.readFrame input with
      | (.ok frame, rest) => some { state with reader := some (.naming frame rest) }
      | (.err _, _) => some { state with reader := some .shutting }
      | (.panic _, _) => some { state with reader := some .panicked }
  | some (.naming frame rest) =>
      some { state with reader := some (.delivering frame ⟨state.rawToken⟩ rest) }
  | some (.delivering frame token rest) =>
      (state.deliver (.frame frame (some token))).map fun sent =>
        { sent with reader := some (.reading rest) }
  | some (.closing pc) =>
      (pc.advance ClientFlags.readClosed state.word state.rawToken).bind
        fun (next, word, message) => match message with
        | none => some { state with word, reader := some (.closing next) }
        | some body =>
            (state.deliver body).map fun sent => { sent with word, reader := some (.closing next) }
  | some .shutting | some .panicked | none => none

/-- The shutdown of the socket at the end of the read loop. -/
def shutSocketStep (state : ClientState) (succeeded : Bool) : Option ClientState :=
  match state.reader with
  | some .shutting =>
      some { state with reader := some (if succeeded then .closing .load else .panicked) }
  | _ => none

/-- One step of `Client::write_loop`. -/
def writeStep (state : ClientState) (written : Bool) : Option ClientState :=
  match state.writer with
  | some .receiving =>
      state.outgoing.recv.map fun (message, outgoing) =>
        { state with outgoing, writer := some (.received message.body) }
  | some (.writing tr) =>
      some { state with
        writer := some (if written || tr.emitted.isEmpty then .receiving else .flushing) }
  | some .flushing =>
      match state.outgoing.recv with
      | some (_, outgoing) => some { state with outgoing }
      | none => some { state with writer := some (.closing .load) }
  | some (.closing pc) =>
      (pc.advance ClientFlags.writeClosed state.word state.rawToken).bind
        fun (next, word, message) => match message with
        | none => some { state with word, writer := some (.closing next) }
        | some body =>
            (state.deliver body).map fun sent => { sent with word, writer := some (.closing next) }
  | none => none

/-- `on_client_changed`, up to the notice it sends. -/
def onClientChanged (message : ClientMessage) : ClientForwardPc :=
  match message.body with
  | .clientChanged flags _ =>
      if FlagSet.contains flags ClientFlags.mantainLoopExited then .exited
      else if FlagSet.contains flags ClientFlags.readClosed &&
          !FlagSet.contains flags ClientFlags.writeClosed then .loadFlags message
      else .calling message
  | _ => .calling message

/-- One step of `Client::forward_loop`. -/
def forwardStep (state : ClientState) : Option ClientState :=
  match state.forward with
  | .receiving =>
      state.incoming.recv.map fun (message, incoming) =>
        { state with
          incoming, forward := .handling message, consumed := state.consumed ++ [message] }
  | .handling message => some { state with forward := onClientChanged message }
  | .loadFlags message =>
      some { state with forward := .loadToken message (clientFlags state.word) }
  | .loadToken message flags =>
      some { state with forward := .notifying message flags ⟨state.rawToken⟩ }
  | .notifying message flags token =>
      (state.outgoing.trySend ⟨.clientChanged flags token, message.connection⟩).map fun outgoing =>
        { state with outgoing, forward := .calling message }
  | .calling message =>
      some { state with callbacks := state.callbacks ++ [message.body], forward := .receiving }
  | .exited => none

/-- The thread of `Client::spawn`. -/
def mainStep (state : ClientState) : Option ClientState :=
  match state.main, state.mantain, state.forward with
  | .awaitingMantain, .returned, _ => some { state with main := .awaitingForward }
  | .awaitingForward, _, .exited =>
      some { state with
        main := .returned
        callbacks := state.callbacks ++ [.clientChanged ClientFlags.terminated ⟨state.rawToken⟩] }
  | _, _, _ => none

/-- `try_send` of user code. -/
def trySendStep (state : ClientState) (tr : Transaction) : ClientState :=
  match state.outgoing.trySend ⟨tr, state.connections⟩ with
  | some outgoing => { state with outgoing }
  | none => state

/-- One step of a task, of the network or of user code; nothing where the task has to wait. -/
def step (state : ClientState) : ClientLabel → Option ClientState
  | .mantain => state.mantainStep
  | .connect outcome => state.connectStep outcome
  | .wait elapsed => state.waitStep elapsed
  | .read => state.readStep
  | .shutSocket succeeded => state.shutSocketStep succeeded
  | .write written => state.writeStep written
  | .forward => state.forwardStep
  | .main => state.mainStep
  | .shutdown => some { state with exitLoop := true }
  | .trySend tr => some (state.trySendStep tr)

end ClientState

/-- Every run of a client. -/
def clientMachine : Machine ClientState ClientLabel where
  initial state := ∃ autoReconnect, state = .start autoReconnect
  step := ClientState.step

end H2l
