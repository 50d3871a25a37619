import H2l.Client.Stalls
import H2l.Client.Transcript

/-!
# A client left to itself

The network and the clock decide when a client connects; what its tasks do with the
connections they have is bounded, since each peer's stream is finite and ends. `client_settles` says that they come to rest in whatever
order they take their steps, and where: in a deadlock, or with the maintenance loop at a
decision of the network or the clock, or out of its loop. By then the closure has been
told everything, unless a notice waits for room.
-/

namespace H2l

open Base

/-- The steps of an exit sequence, and those that its message will take. -/
def ClientExitPc.work : ClientExitPc → Nat
  | load => 13
  | store _ => 12
  | reload => 11
  | reloadToken _ => 10
  | announce _ _ => 9
  | finished => 0

/-- Every frame takes nine bytes at least, and eleven steps at most. -/
def ClientReaderPc.work : ClientReaderPc → Nat
  | reading input => 2 * input.content.length + 15
  | naming _ rest => 2 * rest.content.length + 25
  | delivering _ _ rest => 2 * rest.content.length + 24
  | shutting => 14
  | closing pc => pc.work
  | panicked => 0

/-- A frame is written in two steps, which its place in the channel pays for. -/
def ClientWriterPc.work : ClientWriterPc → Nat
  | receiving | flushing => 14
  | writing _ => 15
  | closing pc => pc.work

/-- A message may ask for a notice, which is sent, received and skipped. -/
def ClientForwardPc.work : ClientForwardPc → Nat
  | handling _ => 7
  | loadFlags _ => 6
  | loadToken _ _ => 5
  | notifying _ _ _ => 4
  | calling _ => 1
  | receiving | exited => 0

/-- The steps up to the next decision of the network, those of the loops to spawn among them. -/
def MantainPc.work : MantainPc → Nat
  | storeToken _ session => 2 * session.input.content.length + 65
  | handshakedLoad session => 2 * session.input.content.length + 64
  | handshakedStore _ session => 2 * session.input.content.length + 63
  | loadFlags session => 2 * session.input.content.length + 62
  | loadToken _ session => 2 * session.input.content.length + 61
  | announce _ _ session => 2 * session.input.content.length + 60
  | loadSettingsToken session => 2 * session.input.content.length + 51
  | sendSettings _ session => 2 * session.input.content.length + 50
  | spawn input => 2 * input.content.length + 41
  | awaiting => 11
  | removeLoad => 10
  | removeStore _ => 9
  | clearToken => 8
  | loadReconnected => 7
  | reconnectedLoad => 6
  | reconnectedStore _ => 5
  | head => 4
  | storeExit => 3
  | exitedLoad => 2
  | exitedStore _ => 1
  | connecting | delaying | returned | panicked => 0

/-- `join` waits for the maintenance loop and then for the forward loop. -/
def ClientMainPc.work : ClientMainPc → Nat
  | awaitingMantain => 2
  | awaitingForward => 1
  | returned => 0

namespace ClientState

/-- The work of the loops of the current connection. -/
def loopsWork (state : ClientState) : Nat :=
  state.reader.elim 0 ClientReaderPc.work + state.writer.elim 0 ClientWriterPc.work

/-- A bound for the steps that the tasks can take before something new comes from outside. -/
def work (state : ClientState) : Nat :=
  state.mantain.work + state.loopsWork + state.forward.work + state.main.work +
    8 * state.incoming.items.length + 2 * state.outgoing.items.length

end ClientState

/-- What user code has been told once its client has come to rest: every message that was sent, and
of each connection whose read loop has not unwound every frame. -/
structure ClientServed (trace : List (ClientState × ClientLabel)) (state : ClientState) : Prop where
  told : (sentLog trace).map Posted.message = state.told
  frames : ∀ index handshake, (handshakes trace)[index]? = some handshake →
    (index + 1 = state.connections → state.unwound = false) →
      framesFor (index + 1) state.told = handshake.session.frames

/-- The forward loop waits for room to send a notice. -/
def ClientState.blocked (state : ClientState) : Prop :=
  (∃ message flags token, state.forward = .notifying message flags token) ∧
    state.outgoing.items.length = 4096

/-- Left to themselves, the tasks of a client come to rest. -/
structure ClientSettles (trace : List (ClientState × ClientLabel)) (state : ClientState) :
    Prop where
  bounded : ∀ further final, clientMachine.Run state further final →
    (∀ taken ∈ further, taken.2.Works) → further.length ≤ state.work
  ends : ∃ further final, clientMachine.Run state further final ∧
    (∀ taken ∈ further, taken.2.Works) ∧ clientMachine.AtRest ClientLabel.Works final
  settled : ∀ further final, clientMachine.Run state further final →
    clientMachine.AtRest ClientLabel.Works final → final.Deadlocked ∨
      final.mantain.waits ∧ (ClientServed (trace ++ further) final ∨ final.blocked)

variable {state after : ClientState} {label : ClientLabel}
  {trace : List (ClientState × ClientLabel)}

/-- A step of an exit sequence, with the message that it sends. -/
theorem clientAdvance_work {own : ClientFlags} {word word' : Word} {token : Nat}
    {pc next : ClientExitPc} {message : Option Transaction}
    (advances : pc.advance own word token = some (next, word', message)) :
    next.work + 8 * message.toList.length < pc.work := by
  cases pc with
  | finished => cases advances
  | _ => cases advances; simp [ClientExitPc.work]

/-- A message that is sent takes one place in the channel. -/
theorem sends_length {sent : Option Transaction} {incoming : Channel ClientMessage 4096}
    (sends : state.Sends sent incoming) :
    incoming.items.length = state.incoming.items.length + sent.toList.length := by
  rw [sends, List.length_append]
  cases sent <;> rfl

/-- Every move of the read loop brings the work down. -/
theorem ClientReaderMove.work (move : ClientReaderMove state after) : after.work < state.work := by
  cases move with
  | fetched pc reads =>
      have fewer := @readFrame_takes .client _ _ _ reads
      simp only [ClientState.work, ClientState.loopsWork, pc, Option.elim_some,
        ClientReaderPc.work]
      omega
  | ended pc | unwound pc | named pc =>
      simp only [ClientState.work, ClientState.loopsWork, pc, Option.elim_some,
        ClientReaderPc.work]
      omega
  | shut pc | shutUnwound pc =>
      simp only [ClientState.work, ClientState.loopsWork, pc, Option.elim_some,
        ClientReaderPc.work, ClientExitPc.work]
      omega
  | delivered pc sends =>
      have length := sends_length sends
      simp only [Option.toList_some, List.length_singleton] at length
      simp only [ClientState.work, ClientState.loopsWork, pc, Option.elim_some,
        ClientReaderPc.work, length]
      omega
  | exits place advances sends =>
      have length := sends_length sends
      have smaller := clientAdvance_work advances
      simp only [ClientState.work, ClientState.loopsWork, place, Option.elim_some,
        ClientReaderPc.work, length]
      omega

/-- What a message asks of the write loop. -/
theorem clientReceived_work (tr : Transaction) : (ClientWriterPc.received tr).work ≤ 15 := by
  rcases ClientWriterPc.received_cases tr with place | place | place
  all_goals rw [place]; simp [ClientWriterPc.work]

/-- Every move of the write loop brings the work down. -/
theorem ClientWriterMove.work (move : ClientWriterMove state after) : after.work < state.work := by
  cases move with
  | @received message outgoing pc receives =>
      have less := clientReceived_work message.body
      have waiting : ClientWriterPc.receiving.work = 14 := rfl
      simp only [ClientState.work, ClientState.loopsWork, pc, Option.elim_some, waiting,
        Channel.recv_items receives, List.length_cons]
      omega
  | wrote pc | failed pc =>
      simp only [ClientState.work, ClientState.loopsWork, pc, Option.elim_some,
        ClientWriterPc.work]
      omega
  | flushed pc =>
      simp only [ClientState.work, ClientState.loopsWork, pc, Option.elim_some,
        ClientWriterPc.work, ClientExitPc.work]
      omega
  | discarded pc receives =>
      simp only [ClientState.work, ClientState.loopsWork, Channel.recv_items receives,
        List.length_cons]
      omega
  | exits place advances sends =>
      have length := sends_length sends
      have smaller := clientAdvance_work advances
      simp only [ClientState.work, ClientState.loopsWork, place, Option.elim_some,
        ClientWriterPc.work, length]
      omega

/-- What a message asks of the forward loop. -/
theorem onClientChanged_work (message : ClientMessage) :
    (ClientState.onClientChanged message).work ≤ 6 := by
  unfold ClientState.onClientChanged
  split
  · split
    · exact Nat.zero_le _
    · split <;> simp [ClientForwardPc.work]
  · simp [ClientForwardPc.work]

/-- Every move of the forward loop brings the work down. -/
theorem ClientForwardMove.work (move : ClientForwardMove state after) :
    after.work < state.work := by
  cases move with
  | received pc receives =>
      simp only [ClientState.work, ClientState.loopsWork, pc, Channel.recv_items receives,
        List.length_cons, ClientForwardPc.work]
      omega
  | @handled message pc =>
      have less := onClientChanged_work message
      have handling : state.forward.work = 7 := by rw [pc]; rfl
      simp only [ClientState.work, ClientState.loopsWork, handling]
      omega
  | loadedFlags pc | loadedToken pc | called pc =>
      simp only [ClientState.work, ClientState.loopsWork, pc, ClientForwardPc.work]
      omega
  | notified pc sends =>
      simp only [ClientState.work, ClientState.loopsWork, pc, Channel.trySend_items sends,
        List.length_append, List.length_singleton, ClientForwardPc.work]
      omega

/-- Every move of the maintenance loop brings the work down. -/
theorem MantainMove.work (move : MantainMove state after) : after.work < state.work := by
  have lower : ∀ {exitLoop word rawToken mantain}, mantain.work < state.mantain.work →
      ClientState.work { state with exitLoop, word, rawToken, mantain } < state.work := by
    intro exitLoop word rawToken mantain smaller
    simp only [ClientState.work, ClientState.loopsWork]
    omega
  cases move with
  | tested pc =>
      refine @lower _ _ _ _ ?_
      rw [pc]
      split <;> simp [MantainPc.work]
  | clearedToken pc =>
      refine @lower _ _ _ _ ?_
      rw [pc]
      split <;> simp [MantainPc.work]
  | checkedReconnected pc =>
      refine @lower _ _ _ _ ?_
      rw [pc]
      split <;> simp [MantainPc.work]
  | announced pc sends | sentSettings pc sends =>
      have length := sends_length sends
      simp only [Option.toList_some, List.length_singleton] at length
      simp only [ClientState.work, ClientState.loopsWork, pc, MantainPc.work, length]
      omega
  | spawned pc =>
      simp only [ClientState.work, ClientState.loopsWork, pc, MantainPc.work, Option.elim_some,
        ClientReaderPc.work, ClientWriterPc.work]
      omega
  | joined pc =>
      simp only [ClientState.work, ClientState.loopsWork, pc, MantainPc.work, Option.elim_none]
      omega
  | storedToken pc | loadedHandshaked pc | storedHandshaked pc | loadedFlags pc | loadedToken pc
  | loadedSettingsToken pc | unwound pc | loadedClosed pc | removedClosed pc
  | loadedReconnected pc | storedReconnected pc | storedExit pc | loadedExited pc
  | storedExited pc =>
      exact @lower _ _ _ _ (by rw [pc]; simp [MantainPc.work])

/-- Every step of a task takes work away. -/
theorem client_shrinks : clientMachine.Shrinks ClientLabel.Works ClientState.work := by
  intro state label after works taken
  cases ClientState.move_of_step taken with
  | mantained move => exact move.work
  | read move | shutSocket move => exact move.work
  | wrote move => exact move.work
  | forwarded move => exact move.work
  | joinedMantain pc =>
      simp [ClientState.work, ClientState.loopsWork, pc, ClientMainPc.work]
  | joinedForward pc =>
      simp [ClientState.work, ClientState.loopsWork, pc, ClientMainPc.work]
  | _ => exact works.elim

/-- A forward loop that waits with nothing to receive has told everything. -/
theorem served_of_atRest {autoReconnect : Bool}
    (run : clientMachine.Run (.start autoReconnect) trace state)
    (rests : clientMachine.AtRest ClientLabel.Works state) (waits : state.mantain.waits)
    (idle : state.forward = .receiving) (empty : state.incoming.items = []) :
    ClientServed trace state := by
  have nothing : state.untold = [] := by
    rw [ClientState.untold, idle, empty]
    rfl
  have ended : ∀ pc ∈ state.reader, pc.ended := by
    intro pc there
    rcases readLoop_atRest rests there with ⟨-, full⟩ | rfl | rfl
    · rw [ClientState.crowded, empty] at full
      cases full
    · rfl
    · rfl
  have closed : state.mantain.opens = false := by
    cases pc : state.mantain with
    | connecting | delaying | returned | panicked => rfl
    | _ => rw [pc] at waits; cases waits
  refine ⟨by rw [sent_split run, nothing, List.append_nil], fun index handshake found within => ?_⟩
  have whole := frames_of_ended run found (.inr ⟨closed, ended⟩) within
  rwa [nothing, List.append_nil] at whole

/-- From every state of a run the tasks of a client come to rest after boundedly many steps: in a
deadlock, or where only the network or the clock goes on, with everything told unless a notice
waits for room. -/
theorem client_settles {autoReconnect : Bool}
    (run : clientMachine.Run (.start autoReconnect) trace state) : ClientSettles trace state where
  bounded further final onward only := by
    have short := onward.length_add_size_le client_shrinks only
    omega
  ends := Machine.leads_to_atRest client_shrinks state
  settled further final onward rests := by
    have reached := run.append onward
    have quiet := quiet_of_reachable ⟨_, _, ⟨autoReconnect, rfl⟩, reached⟩
    refine (deadlocked_of_atRest reached rests).symm.imp id fun waits => ⟨waits, ?_⟩
    rcases forwardLoop_atRest rests quiet with ⟨idle, empty⟩ | blocked
    · exact .inl (served_of_atRest reached rests waits idle empty)
    · exact .inr blocked

/-- A client has completed its handshake with a peer that pings and closes. -/
def shakenOnce : List ClientLabel := [.mantain, .connect (.connected 7 pingingPeer)]

/-- The trace of `shakenOnce`. -/
def shakenTrace : List (ClientState × ClientLabel) :=
  clientMachine.traceOf (.start false) shakenOnce

/-- A client with a connection, and a bound for the steps that its tasks can take. -/
theorem shakenTrace_settles :
    ∃ state, clientMachine.Run (.start false) shakenTrace state ∧ state.work = 101 ∧
      ClientSettles shakenTrace state := by
  obtain ⟨state, run, works⟩ := @Machine.run_of_exec_any _ _ clientMachine (.start false)
    shakenOnce (fun state => decide (state.work = 101)) (by decide)
  exact ⟨state, run, of_decide_eq_true works, client_settles run⟩

end H2l
