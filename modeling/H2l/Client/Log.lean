import H2l.Client.Flags

/-!
# What a client puts on its incoming channel

`sentLog` is the record of a run: every message put on the incoming channel, with the
task that sent it. `ClientPosting` lists who sends what, and from where;
`ConnectionTurn` says what a step can do to a connection whose loops have been started.
-/

namespace H2l

open Base

/-- The tasks of a client, and user code. -/
inductive ClientTask where
  | mantainLoop
  | readLoop
  | writeLoop
  | forwardLoop
  | main
  | user
deriving DecidableEq

/-- The task that takes a step. -/
def ClientLabel.task : ClientLabel → ClientTask
  | mantain | connect _ | wait _ => .mantainLoop
  | read | shutSocket _ => .readLoop
  | write _ => .writeLoop
  | forward => .forwardLoop
  | main => .main
  | shutdown | trySend _ => .user

/-- A message of the incoming channel, and the task that put it there. -/
structure Posted where
  task : ClientTask
  message : ClientMessage
deriving DecidableEq

/-- Everything that was put on the incoming channel, oldest first. -/
def ClientState.history (state : ClientState) : List ClientMessage :=
  state.consumed ++ state.incoming.items

/-- What a step puts on the incoming channel. -/
def ClientState.posted (state : ClientState) (label : ClientLabel) : List Posted :=
  match clientMachine.step state label with
  | some after => (after.history.drop state.history.length).map fun message => ⟨label.task, message⟩
  | none => []

/-- What the steps of a run put on the incoming channel. -/
def sentLog (trace : List (ClientState × ClientLabel)) : List Posted :=
  trace.flatMap fun taken => taken.1.posted taken.2

/-- The message, if any, under the number of the current connection. -/
def ClientState.tagged (state : ClientState) (sent : Option Transaction) : List ClientMessage :=
  (sent.map fun body => ⟨body, state.connections⟩).toList

/-- A handshake has completed whose loops do not run yet. -/
def MantainPc.opens : MantainPc → Bool
  | storeToken _ _ | handshakedLoad _ | handshakedStore _ _ | loadFlags _ | loadToken _ _
  | announce _ _ _ | loadSettingsToken _ | sendSettings _ _ | spawn _ => true
  | _ => false

/-- The loop is still in its receive loop. -/
def ClientWriterPc.receives : ClientWriterPc → Bool
  | receiving | writing _ => true
  | flushing | closing _ => false

namespace Transaction

/-- A message of a client about itself. -/
def isClientChanged : Transaction → Bool
  | clientChanged _ _ => true
  | _ => false

/-- A notice that ends a write loop. -/
def closesRead : Transaction → Bool
  | clientChanged flags _ => FlagSet.contains flags ClientFlags.readClosed
  | _ => false

/-- A message that the forward loop answers with a notice for the write loop. -/
def asksNotice : Transaction → Bool
  | clientChanged flags _ => FlagSet.contains flags ClientFlags.readClosed &&
      !FlagSet.contains flags ClientFlags.writeClosed
  | _ => false

end Transaction

/-- What a task sends in a step, and where it stands. -/
inductive ClientPosting (state : ClientState) : ClientTask → Option Transaction → Prop where
  | silent {task} : ClientPosting state task none
  | announced {flags token session} (pc : state.mantain = .announce flags token session) :
      ClientPosting state .mantainLoop (some (.clientChanged flags token))
  | settings {token session} (pc : state.mantain = .sendSettings token session) :
      ClientPosting state .mantainLoop (some (.frame (.settings session.settings) (some token)))
  | delivered {frame token rest} (pc : state.reader = some (.delivering frame token rest)) :
      ClientPosting state .readLoop (some (.frame frame (some token)))
  | readExit {flags token} (pc : state.reader = some (.closing (.announce flags token))) :
      ClientPosting state .readLoop (some (.clientChanged flags token))
  | writeExit {flags token} (pc : state.writer = some (.closing (.announce flags token))) :
      ClientPosting state .writeLoop (some (.clientChanged flags token))

/-- What a step does to a connection whose loops have been started. -/
inductive ConnectionTurn (state : ClientState) (label : ClientLabel) (after : ClientState) :
    Prop where
  /-- The loops have ended, and the maintenance loop goes on. -/
  | apart (read : ∀ pc ∈ state.reader, pc = .closing .finished)
      (written : ∀ pc ∈ state.writer, pc = .closing .finished)
      (loops : after.reader = none ∧ after.writer = none)
      (outgoing : after.outgoing = state.outgoing) (history : after.history = state.history)
  | read (task : label.task = .readLoop) (move : ClientReaderMove state after)
  | wrote (task : label.task = .writeLoop) (move : ClientWriterMove state after)
  | forwarded (move : ClientForwardMove state after)
  /-- Nothing but the outgoing channel changes. -/
  | kept (loops : after.reader = state.reader ∧ after.writer = state.writer)
      (token : after.rawToken = state.rawToken) (forward : after.forward = state.forward)
      (incoming : after.incoming = state.incoming) (consumed : after.consumed = state.consumed)
      (outgoing : after.outgoing = state.outgoing ∨ ∃ tr, label = .trySend tr ∧
        state.outgoing.trySend ⟨tr, state.connections⟩ = some after.outgoing)

variable {state after : ClientState} {label : ClientLabel}
  {trace : List (ClientState × ClientLabel)}

@[simp] theorem sentLog_nil : sentLog [] = [] := rfl

/-- One more step adds what it posts to the log. -/
theorem sentLog_snoc (trace : List (ClientState × ClientLabel)) (state : ClientState)
    (label : ClientLabel) :
    sentLog (trace ++ [(state, label)]) = sentLog trace ++ state.posted label := by
  simp [sentLog]

/-- What a step posts is what it adds to the history. -/
theorem posted_of_history {sent : List ClientMessage}
    (taken : clientMachine.step state label = some after)
    (grows : after.history = state.history ++ sent) :
    state.posted label = sent.map fun message => ⟨label.task, message⟩ := by
  simp only [ClientState.posted, taken, grows, List.drop_left]

/-- A message of an exit sequence is its last step. -/
theorem advance_sent {own : ClientFlags} {pc next : ClientExitPc} {bits bits' : Word}
    {rawToken : Nat} {body : Transaction}
    (advances : pc.advance own bits rawToken = some (next, bits', some body)) :
    ∃ flags token, pc = .announce flags token ∧ next = .finished ∧
      body = .clientChanged flags token := by
  cases pc with
  | announce flags token => cases advances; exact ⟨flags, token, rfl, rfl, rfl⟩
  | _ => cases advances

/-- Sending adds to the history, and receiving does not change it. -/
theorem history_of_sends {sent : Option Transaction} {incoming : Channel ClientMessage 4096}
    (sends : state.Sends sent incoming) :
    state.consumed ++ incoming.items = state.history ++ state.tagged sent := by
  rw [sends, ClientState.history, ClientState.tagged, List.append_assoc]

/-- What the read loop posts. -/
theorem posting_of_reader (move : ClientReaderMove state after) :
    ∃ sent, ClientPosting state .readLoop sent ∧
      after.history = state.history ++ state.tagged sent := by
  cases move with
  | delivered pc sends => exact ⟨_, .delivered pc, history_of_sends sends⟩
  | @exits pc next word message incoming place advances sends =>
      refine ⟨message, ?_, history_of_sends sends⟩
      cases message with
      | none => exact .silent
      | some body =>
          obtain ⟨flags, token, rfl, -, rfl⟩ := advance_sent advances
          exact .readExit place
  | _ => exact ⟨none, .silent, (List.append_nil _).symm⟩

/-- What the write loop posts. -/
theorem posting_of_writer (move : ClientWriterMove state after) :
    ∃ sent, ClientPosting state .writeLoop sent ∧
      after.history = state.history ++ state.tagged sent := by
  cases move with
  | @exits pc next word message incoming place advances sends =>
      refine ⟨message, ?_, history_of_sends sends⟩
      cases message with
      | none => exact .silent
      | some body =>
          obtain ⟨flags, token, rfl, -, rfl⟩ := advance_sent advances
          exact .writeExit place
  | _ => exact ⟨none, .silent, (List.append_nil _).symm⟩

/-- Every step sends one of the listed messages, or none. -/
theorem posting_of_clientMove (move : ClientMove state label after) :
    ∃ sent, ClientPosting state label.task sent ∧
      after.history = state.history ++ state.tagged sent := by
  cases move with
  | mantained move =>
      cases move with
      | announced pc sends => exact ⟨_, .announced pc, history_of_sends sends⟩
      | sentSettings pc sends => exact ⟨_, .settings pc, history_of_sends sends⟩
      | _ => exact ⟨none, .silent, (List.append_nil _).symm⟩
  | read move | shutSocket move => exact posting_of_reader move
  | wrote move => exact posting_of_writer move
  | forwarded move =>
      refine ⟨none, .silent, ?_⟩
      cases move with
      | received pc receives =>
          simp [ClientState.history, ClientState.tagged, Channel.recv_items receives]
      | _ => exact (List.append_nil _).symm
  | _ => exact ⟨none, .silent, (List.append_nil _).symm⟩

/-- The log of a run, one step longer. -/
theorem sentLog_of_step (taken : clientMachine.step state label = some after) :
    ∃ sent, ClientPosting state label.task sent ∧
      after.history = state.history ++ state.tagged sent ∧
      sentLog (trace ++ [(state, label)]) =
        sentLog trace ++ (state.tagged sent).map fun message => ⟨label.task, message⟩ := by
  obtain ⟨sent, posting, grows⟩ := posting_of_clientMove (ClientState.move_of_step taken)
  exact ⟨sent, posting, grows, by rw [sentLog_snoc, posted_of_history taken grows]⟩

/-- The log is exactly what went through the channel. -/
theorem sentLog_history {autoReconnect : Bool}
    (run : clientMachine.Run (.start autoReconnect) trace state) :
    (sentLog trace).map Posted.message = state.history := by
  induction run with
  | nil => rfl
  | @snoc trace before label after prior taken ih =>
      obtain ⟨sent, -, grows, logs⟩ := @sentLog_of_step before after label trace taken
      rw [logs, grows, List.map_append, ih, List.map_map]
      simp [Function.comp_def]

/-- A maintenance loop that waits for the loops has spawned them. -/
theorem opens_of_attends {pc : MantainPc} (attends : pc.attends) : pc.opens = false := by
  cases pc with
  | awaiting | panicked => rfl
  | _ => cases attends

/-- A write loop that receives has not begun its exit sequence. -/
theorem exit_of_receives {pc : ClientWriterPc} (goes : pc.receives) : pc.exit = .load := by
  cases pc with
  | closing => cases goes
  | _ => rfl

/-- Connections are only ever added. -/
theorem connections_of_move (move : ClientMove state label after) :
    after.connections = state.connections ∨ after.connections = state.connections + 1 := by
  cases move with
  | connected => exact .inr rfl
  | mantained move => exact .inl move.frame.connections
  | read move | shutSocket move => exact .inl move.frame.connections
  | wrote move => exact .inl move.frame.connections
  | forwarded move => exact .inl move.frame.connections
  | _ => exact .inl rfl

/-- The maintenance loop with no loops beside it. -/
theorem turn_of_apart (apart : state.reader = none ∧ state.writer = none)
    (loops : after.reader = state.reader ∧ after.writer = state.writer)
    (outgoing : after.outgoing = state.outgoing) (history : after.history = state.history) :
    ConnectionTurn state label after :=
  .apart (by simp [apart.1]) (by simp [apart.2]) (by rw [loops.1, loops.2]; exact apart)
    outgoing history

/-- The maintenance loop's part in the turn of a connection. -/
theorem turn_of_mantain (quiet : QuietInv state) (move : MantainMove state after)
    (closed : state.mantain.opens = false) :
    after.mantain.opens = false ∧ ConnectionTurn state label after := by
  cases move with
  | joined pc reader writer =>
      refine ⟨rfl, .apart ?_ ?_ ⟨rfl, rfl⟩ rfl rfl⟩
      · simp [reader]
      · simp [writer]
  | unwound => exact ⟨rfl, .kept ⟨rfl, rfl⟩ rfl rfl rfl rfl (.inl rfl)⟩
  | tested pc | clearedToken pc | checkedReconnected pc =>
      refine ⟨?_, turn_of_apart (quiet.apart pc rfl) ⟨rfl, rfl⟩ rfl rfl⟩
      split <;> rfl
  | loadedClosed pc | removedClosed pc | loadedReconnected pc | storedReconnected pc
  | storedExit pc | loadedExited pc | storedExited pc =>
      exact ⟨rfl, turn_of_apart (quiet.apart pc rfl) ⟨rfl, rfl⟩ rfl rfl⟩
  | _ pc =>
      rw [pc] at closed
      cases closed

/-- Every step of the same connection, once its loops have been started. -/
theorem turn_of_move (quiet : QuietInv state) (move : ClientMove state label after)
    (closed : state.mantain.opens = false) (same : after.connections = state.connections) :
    after.mantain.opens = false ∧ ConnectionTurn state label after := by
  cases move with
  | mantained move => exact turn_of_mantain quiet move closed
  | timedOut pc | failed pc | refused pc | unwound pc =>
      exact ⟨rfl, turn_of_apart (quiet.apart pc rfl) ⟨rfl, rfl⟩ rfl rfl⟩
  | connected => exact absurd same (Nat.succ_ne_self _)
  | waited pc =>
      refine ⟨?_, turn_of_apart (quiet.apart pc rfl) ⟨rfl, rfl⟩ rfl rfl⟩
      split <;> rfl
  | read move | shutSocket move => exact ⟨move.frame.mantain ▸ closed, .read rfl move⟩
  | wrote move => exact ⟨move.frame.mantain ▸ closed, .wrote rfl move⟩
  | forwarded move => exact ⟨move.frame.mantain ▸ closed, .forwarded move⟩
  | joinedMantain | joinedForward | shutdown | dropped =>
      exact ⟨closed, .kept ⟨rfl, rfl⟩ rfl rfl rfl rfl (.inl rfl)⟩
  | queued sends =>
      exact ⟨closed, .kept ⟨rfl, rfl⟩ rfl rfl rfl rfl (.inr ⟨_, rfl, sends⟩)⟩

end H2l
