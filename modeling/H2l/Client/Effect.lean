import H2l.Client.Step

/-!
# What a step of a client can do

`MantainMove`, `ClientReaderMove`, `ClientWriterMove` and `ClientForwardMove` list
everything that the loops of a client do, with what the guard of each step was;
`ClientMove` is the same for every label. The frames say what the steps of each loop leave
alone.
-/

namespace H2l

open Base

/-- The incoming channel once a loop of the current connection has sent what it had to send. -/
def ClientState.Sends (state : ClientState) (sent : Option Transaction)
    (incoming : Channel ClientMessage 4096) : Prop :=
  incoming.items =
    state.incoming.items ++ (sent.map fun body => ⟨body, state.connections⟩).toList

/-- The steps of the read loop. -/
inductive ClientReaderMove (state : ClientState) : ClientState → Prop where
  | fetched {input frame rest} (pc : state.reader = some (.reading input))
      (reads : Client.readFrame input = (.ok frame, rest)) :
      ClientReaderMove state { state with reader := some (.naming frame rest) }
  | ended {input error rest} (pc : state.reader = some (.reading input))
      (reads : Client.readFrame input = (.err error, rest)) :
      ClientReaderMove state { state with reader := some .shutting }
  | unwound {input cause rest} (pc : state.reader = some (.reading input))
      (reads : Client.readFrame input = (.panic cause, rest)) :
      ClientReaderMove state { state with reader := some .panicked }
  | named {frame rest} (pc : state.reader = some (.naming frame rest)) :
      ClientReaderMove state
        { state with reader := some (.delivering frame ⟨state.rawToken⟩ rest) }
  | delivered {frame token rest incoming} (pc : state.reader = some (.delivering frame token rest))
      (sends : state.Sends (some (.frame frame (some token))) incoming) :
      ClientReaderMove state { state with incoming, reader := some (.reading rest) }
  | shut (pc : state.reader = some .shutting) :
      ClientReaderMove state { state with reader := some (.closing .load) }
  | shutUnwound (pc : state.reader = some .shutting) :
      ClientReaderMove state { state with reader := some .panicked }
  | exits {pc next word message incoming} (place : state.reader = some (.closing pc))
      (advances :
        pc.advance ClientFlags.readClosed state.word state.rawToken = some (next, word, message))
      (sends : state.Sends message incoming) :
      ClientReaderMove state { state with word, incoming, reader := some (.closing next) }

/-- The steps of the write loop. -/
inductive ClientWriterMove (state : ClientState) : ClientState → Prop where
  | received {message outgoing} (pc : state.writer = some .receiving)
      (receives : state.outgoing.recv = some (message, outgoing)) :
      ClientWriterMove state { state with outgoing, writer := some (.received message.body) }
  | wrote {tr} (pc : state.writer = some (.writing tr)) :
      ClientWriterMove state { state with writer := some .receiving }
  | failed {tr} (pc : state.writer = some (.writing tr)) (emits : tr.emitted.isEmpty = false) :
      ClientWriterMove state { state with writer := some .flushing }
  | discarded {message outgoing} (pc : state.writer = some .flushing)
      (receives : state.outgoing.recv = some (message, outgoing)) :
      ClientWriterMove state { state with outgoing }
  | flushed (pc : state.writer = some .flushing) (empty : state.outgoing.recv = none) :
      ClientWriterMove state { state with writer := some (.closing .load) }
  | exits {pc next word message incoming} (place : state.writer = some (.closing pc))
      (advances :
        pc.advance ClientFlags.writeClosed state.word state.rawToken = some (next, word, message))
      (sends : state.Sends message incoming) :
      ClientWriterMove state { state with word, incoming, writer := some (.closing next) }

/-- The steps of the forward loop. -/
inductive ClientForwardMove (state : ClientState) : ClientState → Prop where
  | received {message incoming} (pc : state.forward = .receiving)
      (receives : state.incoming.recv = some (message, incoming)) :
      ClientForwardMove state { state with
        incoming, forward := .handling message, consumed := state.consumed ++ [message] }
  | handled {message} (pc : state.forward = .handling message) :
      ClientForwardMove state { state with forward := ClientState.onClientChanged message }
  | loadedFlags {message} (pc : state.forward = .loadFlags message) :
      ClientForwardMove state
        { state with forward := .loadToken message (clientFlags state.word) }
  | loadedToken {message flags} (pc : state.forward = .loadToken message flags) :
      ClientForwardMove state { state with forward := .notifying message flags ⟨state.rawToken⟩ }
  | notified {message flags token outgoing} (pc : state.forward = .notifying message flags token)
      (sends : state.outgoing.trySend ⟨.clientChanged flags token, message.connection⟩ =
        some outgoing) :
      ClientForwardMove state { state with outgoing, forward := .calling message }
  | called {message} (pc : state.forward = .calling message) :
      ClientForwardMove state { state with
        callbacks := state.callbacks ++ [message.body], forward := .receiving }

/-- The steps of the maintenance loop that nothing outside decides. -/
inductive MantainMove (state : ClientState) : ClientState → Prop where
  | tested (pc : state.mantain = .head) :
      MantainMove state { state with mantain := if state.exitLoop then .storeExit else .connecting }
  | storedToken {token session} (pc : state.mantain = .storeToken token session) :
      MantainMove state { state with rawToken := token, mantain := .handshakedLoad session }
  | loadedHandshaked {session} (pc : state.mantain = .handshakedLoad session) :
      MantainMove state
        { state with mantain := .handshakedStore (clientFlags state.word) session }
  | storedHandshaked {loaded session} (pc : state.mantain = .handshakedStore loaded session) :
      MantainMove state { state with
        word := (FlagSet.union loaded ClientFlags.handshaked).bits, mantain := .loadFlags session }
  | loadedFlags {session} (pc : state.mantain = .loadFlags session) :
      MantainMove state { state with mantain := .loadToken (clientFlags state.word) session }
  | loadedToken {flags session} (pc : state.mantain = .loadToken flags session) :
      MantainMove state { state with mantain := .announce flags ⟨state.rawToken⟩ session }
  | announced {flags token session incoming} (pc : state.mantain = .announce flags token session)
      (sends : state.Sends (some (.clientChanged flags token)) incoming) :
      MantainMove state { state with incoming, mantain := .loadSettingsToken session }
  | loadedSettingsToken {session} (pc : state.mantain = .loadSettingsToken session) :
      MantainMove state { state with mantain := .sendSettings ⟨state.rawToken⟩ session }
  | sentSettings {token session incoming} (pc : state.mantain = .sendSettings token session)
      (sends : state.Sends (some (.frame (.settings session.settings) (some token))) incoming) :
      MantainMove state { state with incoming, mantain := .spawn session.input }
  | spawned {input} (pc : state.mantain = .spawn input) :
      MantainMove state { state with
        reader := some (.reading input), writer := some .receiving, mantain := .awaiting }
  | joined (pc : state.mantain = .awaiting) (reader : state.reader = some (.closing .finished))
      (writer : state.writer = some (.closing .finished)) :
      MantainMove state { state with reader := none, writer := none, mantain := .removeLoad }
  | unwound (pc : state.mantain = .awaiting) (reader : state.reader = some .panicked) :
      MantainMove state { state with mantain := .panicked }
  | loadedClosed (pc : state.mantain = .removeLoad) :
      MantainMove state { state with mantain := .removeStore (clientFlags state.word) }
  | removedClosed {loaded} (pc : state.mantain = .removeStore loaded) :
      MantainMove state { state with
        word := (FlagSet.remove loaded ClientFlags.readWriteClosed).bits, mantain := .clearToken }
  | clearedToken (pc : state.mantain = .clearToken) :
      MantainMove state { state with
        rawToken := 0, mantain := if state.autoReconnect then .loadReconnected else .storeExit }
  | checkedReconnected (pc : state.mantain = .loadReconnected) :
      MantainMove state { state with
        mantain := if FlagSet.contains (clientFlags state.word) ClientFlags.reconnected then .head
          else .reconnectedLoad }
  | loadedReconnected (pc : state.mantain = .reconnectedLoad) :
      MantainMove state { state with mantain := .reconnectedStore (clientFlags state.word) }
  | storedReconnected {loaded} (pc : state.mantain = .reconnectedStore loaded) :
      MantainMove state { state with
        word := (FlagSet.union loaded ClientFlags.reconnected).bits, mantain := .head }
  | storedExit (pc : state.mantain = .storeExit) :
      MantainMove state { state with exitLoop := true, mantain := .exitedLoad }
  | loadedExited (pc : state.mantain = .exitedLoad) :
      MantainMove state { state with mantain := .exitedStore (clientFlags state.word) }
  | storedExited {loaded} (pc : state.mantain = .exitedStore loaded) :
      MantainMove state { state with
        word := (FlagSet.union loaded ClientFlags.mantainLoopExited).bits, mantain := .returned }

/-- The steps of a client. -/
inductive ClientMove (state : ClientState) : ClientLabel → ClientState → Prop where
  | mantained {after} (move : MantainMove state after) : ClientMove state .mantain after
  | timedOut (pc : state.mantain = .connecting) :
      ClientMove state (.connect .timeout) { state with mantain := .head }
  | failed (pc : state.mantain = .connecting) :
      ClientMove state (.connect .failed) { state with mantain := .delaying }
  | connected {token stream settings rest} (pc : state.mantain = .connecting)
      (shakes : Client.handshake stream = (.ok settings, rest)) :
      ClientMove state (.connect (.connected token stream)) { state with
        connections := state.connections + 1
        mantain := .storeToken token ⟨settings, rest.input⟩ }
  | refused {token stream error rest} (pc : state.mantain = .connecting)
      (shakes : Client.handshake stream = (.err error, rest)) :
      ClientMove state (.connect (.connected token stream)) { state with mantain := .storeExit }
  | unwound {token stream cause rest} (pc : state.mantain = .connecting)
      (shakes : Client.handshake stream = (.panic cause, rest)) :
      ClientMove state (.connect (.connected token stream)) { state with mantain := .panicked }
  | waited {elapsed} (pc : state.mantain = .delaying) :
      ClientMove state (.wait elapsed)
        { state with mantain := if state.exitLoop || elapsed then .head else .delaying }
  | read {after} (move : ClientReaderMove state after) : ClientMove state .read after
  | shutSocket {succeeded after} (move : ClientReaderMove state after) :
      ClientMove state (.shutSocket succeeded) after
  | wrote {written after} (move : ClientWriterMove state after) :
      ClientMove state (.write written) after
  | forwarded {after} (move : ClientForwardMove state after) : ClientMove state .forward after
  | joinedMantain (pc : state.main = .awaitingMantain) (returned : state.mantain = .returned) :
      ClientMove state .main { state with main := .awaitingForward }
  | joinedForward (pc : state.main = .awaitingForward) (exited : state.forward = .exited) :
      ClientMove state .main { state with
        main := .returned
        callbacks := state.callbacks ++ [.clientChanged ClientFlags.terminated ⟨state.rawToken⟩] }
  | shutdown : ClientMove state .shutdown { state with exitLoop := true }
  | queued {tr outgoing} (sends : state.outgoing.trySend ⟨tr, state.connections⟩ = some outgoing) :
      ClientMove state (.trySend tr) { state with outgoing }
  | dropped {tr} (full : state.outgoing.trySend ⟨tr, state.connections⟩ = none) :
      ClientMove state (.trySend tr) state

namespace ClientState

variable {state after : ClientState}

/-- Sending nothing leaves the channel as it is. -/
theorem sends_none (state : ClientState) : state.Sends none state.incoming :=
  (List.append_nil _).symm

/-- A delivery changes the incoming channel alone. -/
theorem deliver_eq {body : Transaction} (delivers : state.deliver body = some after) :
    ∃ incoming, state.Sends (some body) incoming ∧ after = { state with incoming } := by
  simp only [deliver, Option.map_eq_some_iff] at delivers
  obtain ⟨incoming, sent, rfl⟩ := delivers
  exact ⟨incoming, Channel.trySend_items sent, rfl⟩

/-- A step of an exit sequence, with the message it sends if there is one. -/
theorem exit_sends {step : ClientState → ClientState} {message : Option Transaction}
    (exits : (match message with
      | none => some (step state)
      | some body => (state.deliver body).map step) = some after) :
    ∃ incoming, state.Sends message incoming ∧ after = step { state with incoming } := by
  cases message with
  | none =>
      cases exits
      exact ⟨state.incoming, state.sends_none, rfl⟩
  | some body =>
      simp only [Option.map_eq_some_iff] at exits
      obtain ⟨sent, delivers, rfl⟩ := exits
      obtain ⟨incoming, sends, rfl⟩ := deliver_eq delivers
      exact ⟨incoming, sends, rfl⟩

/-- A step of the read loop is one of the moves listed above. -/
theorem read_move (steps : state.readStep = some after) : ClientReaderMove state after := by
  unfold readStep at steps
  split at steps
  next input pc =>
    split at steps
    next frame rest reads =>
      cases steps
      exact .fetched pc reads
    next error rest reads =>
      cases steps
      exact .ended pc reads
    next cause rest reads =>
      cases steps
      exact .unwound pc reads
  next frame rest pc =>
    cases steps
    exact .named pc
  next frame token rest pc =>
    simp only [Option.map_eq_some_iff] at steps
    obtain ⟨sent, delivers, rfl⟩ := steps
    obtain ⟨incoming, sends, rfl⟩ := deliver_eq delivers
    exact .delivered pc sends
  next pc place =>
    simp only [Option.bind_eq_some_iff] at steps
    obtain ⟨⟨next, word, message⟩, advances, exits⟩ := steps
    obtain ⟨incoming, sends, rfl⟩ := @exit_sends state after
      (fun sent => { sent with word, reader := some (.closing next) }) message exits
    exact .exits place advances sends
  all_goals cases steps

/-- So is the shutdown of the socket, whether or not it succeeds. -/
theorem shutSocket_move {succeeded : Bool} (steps : state.shutSocketStep succeeded = some after) :
    ClientReaderMove state after := by
  unfold shutSocketStep at steps
  split at steps
  next pc =>
    cases succeeded with
    | true =>
        cases steps
        exact .shut pc
    | false =>
        cases steps
        exact .shutUnwound pc
  next => cases steps

/-- A step of the write loop is one of its moves. -/
theorem write_move {written : Bool} (steps : state.writeStep written = some after) :
    ClientWriterMove state after := by
  unfold writeStep at steps
  split at steps
  next pc =>
    simp only [Option.map_eq_some_iff] at steps
    obtain ⟨⟨message, outgoing⟩, receives, rfl⟩ := steps
    exact .received pc receives
  next tr pc =>
    cases steps
    split
    next => exact .wrote pc
    next fails =>
      have emits : tr.emitted.isEmpty = false := by
        simp only [Bool.or_eq_true, not_or, Bool.not_eq_true] at fails
        exact fails.2
      exact .failed pc emits
  next pc =>
    split at steps
    next message outgoing receives =>
      cases steps
      exact .discarded pc receives
    next empty =>
      cases steps
      exact .flushed pc empty
  next pc place =>
    simp only [Option.bind_eq_some_iff] at steps
    obtain ⟨⟨next, word, message⟩, advances, exits⟩ := steps
    obtain ⟨incoming, sends, rfl⟩ := @exit_sends state after
      (fun sent => { sent with word, writer := some (.closing next) }) message exits
    exact .exits place advances sends
  next => cases steps

/-- A step of the forward loop is one of its moves. -/
theorem forward_move (steps : state.forwardStep = some after) : ClientForwardMove state after := by
  unfold forwardStep at steps
  split at steps
  next pc =>
    simp only [Option.map_eq_some_iff] at steps
    obtain ⟨⟨message, incoming⟩, receives, rfl⟩ := steps
    exact .received pc receives
  next message pc =>
    cases steps
    exact .handled pc
  next message pc =>
    cases steps
    exact .loadedFlags pc
  next message flags pc =>
    cases steps
    exact .loadedToken pc
  next message flags token pc =>
    simp only [Option.map_eq_some_iff] at steps
    obtain ⟨outgoing, sends, rfl⟩ := steps
    exact .notified pc sends
  next message pc =>
    cases steps
    exact .called pc
  next => cases steps

/-- A step of the maintenance loop is one of its moves. -/
theorem mantain_move (steps : state.mantainStep = some after) : MantainMove state after := by
  unfold mantainStep at steps
  split at steps
  next pc => cases steps; exact .tested pc
  next => cases steps
  next => cases steps
  next pc => cases steps; exact .storedToken pc
  next pc => cases steps; exact .loadedHandshaked pc
  next pc => cases steps; exact .storedHandshaked pc
  next pc => cases steps; exact .loadedFlags pc
  next pc => cases steps; exact .loadedToken pc
  next pc =>
    simp only [Option.map_eq_some_iff] at steps
    obtain ⟨sent, delivers, rfl⟩ := steps
    obtain ⟨incoming, sends, rfl⟩ := deliver_eq delivers
    exact .announced pc sends
  next pc => cases steps; exact .loadedSettingsToken pc
  next pc =>
    simp only [Option.map_eq_some_iff] at steps
    obtain ⟨sent, delivers, rfl⟩ := steps
    obtain ⟨incoming, sends, rfl⟩ := deliver_eq delivers
    exact .sentSettings pc sends
  next pc => cases steps; exact .spawned pc
  next pc =>
    split at steps
    next reader writer => cases steps; exact .joined pc reader writer
    next reader => cases steps; exact .unwound pc reader
    next => cases steps
  next pc => cases steps; exact .loadedClosed pc
  next pc => cases steps; exact .removedClosed pc
  next pc => cases steps; exact .clearedToken pc
  next pc => cases steps; exact .checkedReconnected pc
  next pc => cases steps; exact .loadedReconnected pc
  next pc => cases steps; exact .storedReconnected pc
  next pc => cases steps; exact .storedExit pc
  next pc => cases steps; exact .loadedExited pc
  next pc => cases steps; exact .storedExited pc
  all_goals cases steps

/-- An attempt to connect ends in one of the moves of the client. -/
theorem connect_move {outcome : ConnectOutcome} (steps : state.connectStep outcome = some after) :
    ClientMove state (.connect outcome) after := by
  unfold connectStep at steps
  split at steps
  next pc =>
    cases outcome with
    | timeout => cases steps; exact .timedOut pc
    | failed => cases steps; exact .failed pc
    | connected token stream =>
        simp only at steps
        split at steps
        next shakes => cases steps; exact .connected pc shakes
        next shakes => cases steps; exact .refused pc shakes
        next shakes => cases steps; exact .unwound pc shakes
  next => cases steps

/-- Every step is one of the listed moves. -/
theorem move_of_step {label : ClientLabel} (taken : clientMachine.step state label = some after) :
    ClientMove state label after := by
  cases label with
  | mantain => exact .mantained (mantain_move taken)
  | connect outcome => exact connect_move taken
  | wait elapsed =>
      simp only [clientMachine, step, waitStep] at taken
      split at taken <;> cases taken
      next pc => exact .waited pc
  | read => exact .read (read_move taken)
  | shutSocket succeeded => exact .shutSocket (shutSocket_move taken)
  | write written => exact .wrote (write_move taken)
  | forward => exact .forwarded (forward_move taken)
  | main =>
      simp only [clientMachine, step, mainStep] at taken
      split at taken <;> cases taken
      next pc returned => exact .joinedMantain pc returned
      next pc exited => exact .joinedForward pc exited
  | shutdown =>
      cases taken
      exact .shutdown
  | trySend tr =>
      cases taken
      unfold trySendStep
      split
      next sends => exact .queued sends
      next full => exact .dropped full

end ClientState

/-- What a step of the read loop leaves alone. -/
structure ClientReaderFrame (state after : ClientState) : Prop where
  autoReconnect : after.autoReconnect = state.autoReconnect
  exitLoop : after.exitLoop = state.exitLoop
  rawToken : after.rawToken = state.rawToken
  outgoing : after.outgoing = state.outgoing
  mantain : after.mantain = state.mantain
  writer : after.writer = state.writer
  forward : after.forward = state.forward
  main : after.main = state.main
  connections : after.connections = state.connections
  consumed : after.consumed = state.consumed
  callbacks : after.callbacks = state.callbacks

/-- What a step of the write loop leaves alone. -/
structure ClientWriterFrame (state after : ClientState) : Prop where
  autoReconnect : after.autoReconnect = state.autoReconnect
  exitLoop : after.exitLoop = state.exitLoop
  rawToken : after.rawToken = state.rawToken
  mantain : after.mantain = state.mantain
  reader : after.reader = state.reader
  forward : after.forward = state.forward
  main : after.main = state.main
  connections : after.connections = state.connections
  consumed : after.consumed = state.consumed
  callbacks : after.callbacks = state.callbacks

/-- What a step of the forward loop leaves alone. -/
structure ClientForwardFrame (state after : ClientState) : Prop where
  autoReconnect : after.autoReconnect = state.autoReconnect
  exitLoop : after.exitLoop = state.exitLoop
  word : after.word = state.word
  rawToken : after.rawToken = state.rawToken
  mantain : after.mantain = state.mantain
  reader : after.reader = state.reader
  writer : after.writer = state.writer
  main : after.main = state.main
  connections : after.connections = state.connections

/-- What a step of the maintenance loop leaves alone. -/
structure MantainFrame (state after : ClientState) : Prop where
  autoReconnect : after.autoReconnect = state.autoReconnect
  outgoing : after.outgoing = state.outgoing
  forward : after.forward = state.forward
  main : after.main = state.main
  connections : after.connections = state.connections
  consumed : after.consumed = state.consumed
  callbacks : after.callbacks = state.callbacks

section Moves

variable {state after : ClientState}

/-- Only a running loop moves. -/
theorem ClientReaderMove.runs (move : ClientReaderMove state after) :
    ∃ pc, state.reader = some pc := by
  cases move with
  | fetched pc | ended pc | unwound pc | named pc | delivered pc | shut pc | shutUnwound pc
  | exits pc => exact ⟨_, pc⟩

/-- A write loop that moves has been spawned. -/
theorem ClientWriterMove.runs (move : ClientWriterMove state after) :
    ∃ pc, state.writer = some pc := by
  cases move with
  | received pc | wrote pc | failed pc | discarded pc | flushed pc | exits pc => exact ⟨_, pc⟩

/-- A maintenance loop that has returned does not move. -/
theorem MantainMove.runs (move : MantainMove state after) : state.mantain ≠ .returned := by
  cases move <;> simp [*]

/-- What no move of the read loop changes. -/
theorem ClientReaderMove.frame (move : ClientReaderMove state after) :
    ClientReaderFrame state after := by
  cases move <;> constructor <;> rfl

/-- What no move of the write loop changes. -/
theorem ClientWriterMove.frame (move : ClientWriterMove state after) :
    ClientWriterFrame state after := by
  cases move <;> constructor <;> rfl

/-- What no move of the forward loop changes. -/
theorem ClientForwardMove.frame (move : ClientForwardMove state after) :
    ClientForwardFrame state after := by
  cases move <;> constructor <;> rfl

/-- What no move of the maintenance loop changes. -/
theorem MantainMove.frame (move : MantainMove state after) : MantainFrame state after := by
  cases move <;> constructor <;> rfl

end Moves

end H2l
