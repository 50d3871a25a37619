import H2l.Base.Measure
import H2l.Client.Notice
import H2l.Client.Protocol

/-!
# Where a client can stop

A client is stuck when none of its tasks can move, whatever the network and the clock do.
`client_stops` says that a stuck client has left its maintenance loop, or that it is in a
deadlock: the forward loop waits for room in the outgoing channel, and everyone else for
the forward loop. A deadlock lasts.
-/

namespace H2l

open Base

/-- A step of a task on the sockets that the network has brought it. -/
def ClientLabel.Works : ClientLabel → Prop
  | mantain | read | shutSocket _ | write _ | forward | main => True
  | _ => False

/-- The maintenance loop waits for the network or the clock, or has left. -/
def MantainPc.waits : MantainPc → Bool
  | connecting | delaying | returned | panicked => true
  | _ => false

/-- The maintenance loop is about to send. -/
def MantainPc.sends : MantainPc → Bool
  | announce _ _ _ | sendSettings _ _ => true
  | _ => false

/-- The read loop is about to send. -/
def ClientReaderPc.sends : ClientReaderPc → Bool
  | delivering _ _ _ | closing (.announce _ _) => true
  | _ => false

/-- The write loop is about to send. -/
def ClientWriterPc.sends : ClientWriterPc → Bool
  | closing (.announce _ _) => true
  | _ => false

/-- The maintenance loop sends the event of a handshake and the settings. -/
theorem MantainPc.sends_cases {pc : MantainPc} (sends : pc.sends) :
    (∃ flags token session, pc = .announce flags token session) ∨
      ∃ token session, pc = .sendSettings token session := by
  cases pc with
  | announce flags token session => exact .inl ⟨flags, token, session, rfl⟩
  | sendSettings token session => exact .inr ⟨token, session, rfl⟩
  | _ => cases sends

/-- The read loop sends a frame or its exit message. -/
theorem ClientReaderPc.sends_cases {pc : ClientReaderPc} (sends : pc.sends) :
    (∃ frame token input, pc = .delivering frame token input) ∨
      ∃ flags token, pc = .closing (.announce flags token) := by
  cases pc with
  | delivering frame token input => exact .inl ⟨frame, token, input, rfl⟩
  | closing exit =>
      cases exit with
      | announce flags token => exact .inr ⟨flags, token, rfl⟩
      | _ => cases sends
  | _ => cases sends

/-- The write loop sends nothing but its exit message. -/
theorem ClientWriterPc.sends_cases {pc : ClientWriterPc} (sends : pc.sends) :
    ∃ flags token, pc = .closing (.announce flags token) := by
  cases pc with
  | closing exit =>
      cases exit with
      | announce flags token => exact ⟨flags, token, rfl⟩
      | _ => cases sends
  | _ => cases sends

namespace ClientState

/-- No task can move, whatever the network and the clock decide. -/
def Stuck (state : ClientState) : Prop :=
  ∀ label, label.task ≠ .user → clientMachine.step state label = none

/-- The incoming channel is full. -/
def crowded (state : ClientState) : Prop := state.incoming.items.length = 4096

/-- The maintenance loop is about to send, or waits for two loops one of which is. -/
inductive Awaits (state : ClientState) : Prop where
  | sends (pc : state.mantain.sends) (idle : state.reader = none ∧ state.writer = none)
  | read {reader writer} (pc : state.mantain = .awaiting) (reads : state.reader = some reader)
      (writes : state.writer = some writer) (sends : reader.sends)
      (ends : writer.sends ∨ writer = .closing .finished)
  | written {reader writer} (pc : state.mantain = .awaiting) (reads : state.reader = some reader)
      (writes : state.writer = some writer) (sends : writer.sends)
      (ends : reader.sends ∨ reader = .closing .finished)

/-- Both channels are full, and everyone is about to send. -/
structure Deadlocked (state : ClientState) : Prop where
  forward : ∃ message flags token, state.forward = .notifying message flags token
  outgoing : state.outgoing.items.length = 4096
  incoming : state.crowded
  awaits : state.Awaits

end ClientState

/-- What a client that stops is left with. -/
structure ClientStops (state : ClientState) : Prop where
  stuck : state.Stuck →
    state.mantain = .returned ∨ state.mantain = .panicked ∨ state.Deadlocked
  /-- Neither a task nor user code ends a deadlock. -/
  lasts : state.Deadlocked → ∀ trace final, clientMachine.Run state trace final →
    final.Stuck ∧ final.Deadlocked

variable {state after : ClientState} {label : ClientLabel}

/-- A send has to wait exactly when the channel is full. -/
theorem deliver_none_iff (state : ClientState) (body : Transaction) :
    state.deliver body = none ↔ state.crowded := by
  have bounded := state.incoming.bounded
  rw [ClientState.deliver, Option.map_eq_none_iff, Channel.trySend_eq_none_iff,
    ClientState.crowded]
  omega

section AtRest

variable (rests : clientMachine.AtRest ClientLabel.Works state)

include rests

/-- A read loop that cannot move is about to send, has finished or has unwound. -/
theorem readLoop_atRest {pc : ClientReaderPc} (place : state.reader = some pc) :
    pc.sends ∧ state.crowded ∨ pc = .closing .finished ∨ pc = .panicked := by
  have reads : state.readStep = none := rests .read trivial
  have shuts : state.shutSocketStep true = none := rests (.shutSocket true) trivial
  cases pc with
  | reading input =>
      simp only [ClientState.readStep, place] at reads
      split at reads <;> cases reads
  | naming => simp [ClientState.readStep, place] at reads
  | delivering =>
      simp only [ClientState.readStep, place, Option.map_eq_none_iff, deliver_none_iff] at reads
      exact .inl ⟨rfl, reads⟩
  | shutting => simp [ClientState.shutSocketStep, place] at shuts
  | panicked => exact .inr (.inr rfl)
  | closing exit =>
      cases exit with
      | finished => exact .inr (.inl rfl)
      | announce =>
          simp only [ClientState.readStep, place, ClientExitPc.advance, Option.bind_some,
            Option.map_eq_none_iff, deliver_none_iff] at reads
          exact .inl ⟨rfl, reads⟩
      | _ => simp [ClientState.readStep, place, ClientExitPc.advance] at reads

/-- A write loop that cannot move has nothing to receive, is about to send or has finished. -/
theorem writeLoop_atRest {pc : ClientWriterPc} (place : state.writer = some pc) :
    pc = .receiving ∧ state.outgoing.items = [] ∨ pc.sends ∧ state.crowded ∨
      pc = .closing .finished := by
  have writes : state.writeStep true = none := rests (.write true) trivial
  cases pc with
  | receiving =>
      refine .inl ⟨rfl, ?_⟩
      simp only [ClientState.writeStep, place, Option.map_eq_none_iff,
        Channel.recv_eq_none_iff] at writes
      exact writes
  | writing => simp [ClientState.writeStep, place] at writes
  | flushing =>
      simp only [ClientState.writeStep, place] at writes
      split at writes <;> cases writes
  | closing exit =>
      cases exit with
      | finished => exact .inr (.inr rfl)
      | announce =>
          simp only [ClientState.writeStep, place, ClientExitPc.advance, Option.bind_some,
            Option.map_eq_none_iff, deliver_none_iff] at writes
          exact .inr (.inl ⟨rfl, writes⟩)
      | _ => simp [ClientState.writeStep, place, ClientExitPc.advance] at writes

/-- A forward loop that cannot move has nothing to receive, or no room for a notice. -/
theorem forwardLoop_atRest (quiet : QuietInv state) :
    state.forward = .receiving ∧ state.incoming.items = [] ∨
      (∃ message flags token, state.forward = .notifying message flags token) ∧
        state.outgoing.items.length = 4096 := by
  have forwards : state.forwardStep = none := rests .forward trivial
  cases place : state.forward with
  | receiving =>
      simp only [ClientState.forwardStep, place, Option.map_eq_none_iff,
        Channel.recv_eq_none_iff] at forwards
      exact .inl ⟨rfl, forwards⟩
  | notifying message flags token =>
      simp only [ClientState.forwardStep, place, Option.map_eq_none_iff,
        Channel.trySend_eq_none_iff] at forwards
      have bounded := state.outgoing.bounded
      exact .inr ⟨⟨message, flags, token, rfl⟩, by omega⟩
  | exited => exact absurd place quiet.forward
  | _ => simp [ClientState.forwardStep, place] at forwards

/-- A maintenance loop that cannot move is about to send, waits for loops that have not both
finished, or waits for nothing of the client. -/
theorem mantainLoop_atRest :
    state.mantain.sends ∧ state.crowded ∨ state.mantain = .awaiting ∧
        (∀ pc ∈ state.reader, pc ≠ .panicked) ∧
        ¬ (state.reader = some (.closing .finished) ∧ state.writer = some (.closing .finished)) ∨
      state.mantain.waits := by
  have mantains : state.mantainStep = none := rests .mantain trivial
  cases pc : state.mantain with
  | announce | sendSettings =>
      simp only [ClientState.mantainStep, pc, Option.map_eq_none_iff, deliver_none_iff] at mantains
      exact .inl ⟨rfl, mantains⟩
  | connecting | delaying | returned | panicked => exact .inr (.inr rfl)
  | awaiting =>
      refine .inr (.inl ⟨rfl, ?_, ?_⟩)
      · rintro _ (there : state.reader = _) rfl
        simp [ClientState.mantainStep, pc, there] at mantains
      · rintro ⟨reads, writes⟩
        simp [ClientState.mantainStep, pc, reads, writes] at mantains
  | _ => simp [ClientState.mantainStep, pc] at mantains

end AtRest

/-- What a task sent is in the log, under the connection. -/
theorem posted_of_sentBy {log : List Posted} {connection : Nat} {task : ClientTask}
    {body : Transaction} (sent : body ∈ sentBy task (eventsOf connection log)) :
    ⟨task, ⟨body, connection⟩⟩ ∈ log := by
  obtain ⟨⟨sender, carried⟩, event, own⟩ := List.mem_filterMap.mp sent
  obtain ⟨⟨poster, message⟩, member, about⟩ := List.mem_filterMap.mp event
  simp only [Option.ite_none_right_eq_some, Option.some.injEq] at own about
  obtain ⟨rfl, rfl⟩ := own
  obtain ⟨rfl, same⟩ := about
  cases same
  exact member

/-- A read loop that has finished has reported its end. -/
theorem reported_of_finished {autoReconnect : Bool} {trace : List (ClientState × ClientLabel)}
    (run : clientMachine.Run (.start autoReconnect) trace state)
    (finished : state.reader = some (.closing .finished)) :
    ∃ message, ReadReported state message := by
  have quiet := quiet_of_reachable ⟨_, _, ⟨autoReconnect, rfl⟩, run⟩
  have current := (events_of_run run).current
  cases last : (handshakes trace).getLast? with
  | none =>
      rw [last] at current
      cases (current_none current).2.symm.trans finished
  | some handshake =>
      rw [last] at current
      obtain ⟨flags, sent, -, events, runs⟩ :=
        current.running_of_closed (opens_of_attends (attends_of_reader quiet finished))
      have reads := runs.reads
      rw [finished, Option.getD_some] at reads
      have told : sentBy .readLoop (eventsOf state.connections (sentLog trace)) =
          sentBy .readLoop sent := by rw [events, sentBy_opening _ _ (by decide)]
      rw [← told] at reads
      generalize delivered : sentBy .readLoop (eventsOf state.connections (sentLog trace)) = all
        at reads
      cases reads with
      | closing exit =>
          cases exit with
          | pending runs => exact absurd rfl runs
          | @finished exitFlags late =>
              have posted := @posted_of_sentBy (sentLog trace) state.connections .readLoop
                (.clientChanged exitFlags ⟨handshake.token⟩) (by rw [delivered]; simp)
              exact ⟨_, (reported_of_run run _ posted rfl).2 rfl⟩

/-- A write loop does not wait for nothing once its read loop has finished. -/
theorem writer_reported {message : ClientMessage} (reported : ReadReported state message)
    (place : state.writer = some .receiving) (nothing : state.outgoing.items = [])
    (idle : state.forward = .receiving) (empty : state.incoming.items = []) : False := by
  cases reported.pending _ place rfl with
  | queued member =>
      rw [empty] at member
      cases member
  | taken notifies =>
      rw [idle] at notifies
      cases notifies
  | sent member =>
      rw [nothing] at member
      cases member

/-- While the maintenance loop waits for the loops of a connection, they are there. -/
theorem loops_of_move (there : state.mantain = .awaiting → state.reader.isSome)
    (move : ClientMove state label after) (awaits : after.mantain = .awaiting) :
    after.reader.isSome := by
  cases move with
  | mantained move =>
      cases move with
      | spawned => rfl
      | tested | clearedToken | checkedReconnected =>
          simp only at awaits
          split at awaits <;> cases awaits
      | _ => cases awaits
  | waited =>
      simp only at awaits
      split at awaits <;> cases awaits
  | read move | shutSocket move =>
      cases move with
      | fetched | ended | unwound | named | delivered | shut | shutUnwound | exits => rfl
  | wrote move => rw [move.frame.reader]; exact there (move.frame.mantain ▸ awaits)
  | forwarded move => rw [move.frame.reader]; exact there (move.frame.mantain ▸ awaits)
  | joinedMantain | joinedForward | shutdown | queued | dropped => exact there awaits
  | timedOut | failed | connected | refused | unwound => cases awaits

/-- A maintenance loop that waits for loops has loops to wait for. -/
theorem loops_of_reachable (reachable : clientMachine.Reachable state)
    (awaits : state.mantain = .awaiting) : state.reader.isSome := by
  have every := @Machine.Reachable.invariant _ _ clientMachine
    (fun state => state.mantain = .awaiting → state.reader.isSome) state reachable
  refine every ?_ (fun there taken => loops_of_move there (ClientState.move_of_step taken)) awaits
  rintro _ ⟨autoReconnect, rfl⟩ ⟨⟩

/-- Nobody waits on a full channel but for a forward loop that waits as well. -/
theorem forward_of_crowded (quiet : QuietInv state)
    (rests : clientMachine.AtRest ClientLabel.Works state) (full : state.crowded) :
    (∃ message flags token, state.forward = .notifying message flags token) ∧
      state.outgoing.items.length = 4096 := by
  refine (forwardLoop_atRest rests quiet).resolve_left fun idle => ?_
  rw [ClientState.crowded, idle.2] at full
  cases full

/-- A client whose tasks cannot move waits for the network or the clock, has left its maintenance
loop or is in a deadlock. -/
theorem deadlocked_of_atRest {autoReconnect : Bool} {trace : List (ClientState × ClientLabel)}
    (run : clientMachine.Run (.start autoReconnect) trace state)
    (rests : clientMachine.AtRest ClientLabel.Works state) :
    state.mantain.waits ∨ state.Deadlocked := by
  have reachable : clientMachine.Reachable state := ⟨_, _, ⟨autoReconnect, rfl⟩, run⟩
  have quiet := quiet_of_reachable reachable
  have locked : state.crowded → state.Awaits → state.Deadlocked := by
    intro full awaits
    obtain ⟨forward, outgoing⟩ := forward_of_crowded quiet rests full
    exact ⟨forward, outgoing, full, awaits⟩
  rcases mantainLoop_atRest rests with ⟨sends, full⟩ | ⟨pc, calm, unjoined⟩ | waits
  · refine .inr (locked full (.sends sends (quiet.alone ?_)))
    cases pc : state.mantain with
    | awaiting | panicked => rw [pc] at sends; cases sends
    | _ => rfl
  · obtain ⟨reader, reads⟩ := Option.isSome_iff_exists.mp (loops_of_reachable reachable pc)
    obtain ⟨writer, writes⟩ := Option.isSome_iff_exists.mp (show state.writer.isSome by
      rw [← (flags_of_reachable reachable).paired, reads]; rfl)
    have writing := writeLoop_atRest rests writes
    rcases readLoop_atRest rests reads with ⟨sends, full⟩ | rfl | rfl
    · refine .inr (locked full ?_)
      have crowds := (forward_of_crowded quiet rests full).2
      rcases writing with ⟨-, nothing⟩ | ⟨also, -⟩ | ends
      · rw [nothing] at crowds
        cases crowds
      · exact .read pc reads writes sends (.inl also)
      · exact .read pc reads writes sends (.inr ends)
    · rcases writing with ⟨rfl, nothing⟩ | ⟨sends, full⟩ | rfl
      · obtain ⟨message, reported⟩ := reported_of_finished run reads
        rcases forwardLoop_atRest rests quiet with ⟨idle, empty⟩ | ⟨-, crowds⟩
        · exact (writer_reported reported writes nothing idle empty).elim
        · rw [nothing] at crowds
          cases crowds
      · exact .inr (locked full (.written pc reads writes sends (.inr rfl)))
      · exact absurd ⟨reads, writes⟩ unjoined
    · exact absurd rfl (calm _ reads)
  · exact .inl waits

/-- A client that cannot move at all has left its maintenance loop or is in a deadlock. -/
theorem deadlocked_of_stuck {autoReconnect : Bool} {trace : List (ClientState × ClientLabel)}
    (run : clientMachine.Run (.start autoReconnect) trace state) (stuck : state.Stuck) :
    state.mantain = .returned ∨ state.mantain = .panicked ∨ state.Deadlocked := by
  have rests : clientMachine.AtRest ClientLabel.Works state := by
    intro label works
    refine stuck label ?_
    cases label with
    | connect | wait | shutdown | trySend => exact works.elim
    | _ => simp [ClientLabel.task]
  rcases deadlocked_of_atRest run rests with waits | locked
  · have connects : state.connectStep .timeout = none := stuck (.connect .timeout) (by decide)
    have elapses : state.waitStep true = none := stuck (.wait true) (by decide)
    cases pc : state.mantain with
    | connecting => simp [ClientState.connectStep, pc] at connects
    | delaying => simp [ClientState.waitStep, pc] at elapses
    | returned => exact .inl rfl
    | panicked => exact .inr (.inl rfl)
    | _ => rw [pc] at waits; cases waits
  · exact .inr (.inr locked)

section Deadlock

variable (locked : state.Deadlocked)

include locked

/-- The maintenance loop cannot move. -/
theorem mantainStep_of_deadlock : state.mantainStep = none := by
  have full : ∀ body, state.deliver body = none :=
    fun body => (deliver_none_iff state body).mpr locked.incoming
  cases locked.awaits with
  | sends sends =>
      rcases MantainPc.sends_cases sends with ⟨_, _, _, pc⟩ | ⟨_, _, pc⟩ <;>
        simp [ClientState.mantainStep, pc, full]
  | read pc reads _ sends =>
      rcases ClientReaderPc.sends_cases sends with ⟨_, _, _, rfl⟩ | ⟨_, _, rfl⟩ <;>
        simp [ClientState.mantainStep, pc, reads]
  | written pc reads writes sends ends =>
      obtain ⟨_, _, rfl⟩ := ClientWriterPc.sends_cases sends
      rcases ends with ends | rfl
      · rcases ClientReaderPc.sends_cases ends with ⟨_, _, _, rfl⟩ | ⟨_, _, rfl⟩ <;>
          simp [ClientState.mantainStep, pc, reads, writes]
      · simp [ClientState.mantainStep, pc, reads, writes]

/-- The read loop, if there is one, has finished or is about to send. -/
theorem reader_of_deadlock {pc : ClientReaderPc} (place : state.reader = some pc) :
    pc.sends ∨ pc = .closing .finished := by
  cases locked.awaits with
  | sends _ idle => cases idle.1.symm.trans place
  | read _ reads _ sends => cases reads.symm.trans place; exact .inl sends
  | written _ reads _ _ ends => cases reads.symm.trans place; exact ends

/-- The write loop waits to send, or has finished. -/
theorem writer_of_deadlock {pc : ClientWriterPc} (place : state.writer = some pc) :
    pc.sends ∨ pc = .closing .finished := by
  cases locked.awaits with
  | sends _ idle => cases idle.2.symm.trans place
  | read _ _ writes _ ends => cases writes.symm.trans place; exact ends
  | written _ _ writes sends => cases writes.symm.trans place; exact .inl sends

/-- The read loop cannot move, whatever the socket does. -/
theorem readStep_of_deadlock :
    state.readStep = none ∧ ∀ succeeded, state.shutSocketStep succeeded = none := by
  have full : ∀ body, state.deliver body = none :=
    fun body => (deliver_none_iff state body).mpr locked.incoming
  cases place : state.reader with
  | none => simp [ClientState.readStep, ClientState.shutSocketStep, place]
  | some pc =>
      rcases reader_of_deadlock locked place with sends | rfl
      · rcases ClientReaderPc.sends_cases sends with ⟨_, _, _, rfl⟩ | ⟨_, _, rfl⟩ <;>
          simp [ClientState.readStep, ClientState.shutSocketStep, place, ClientExitPc.advance, full]
      · simp [ClientState.readStep, ClientState.shutSocketStep, place, ClientExitPc.advance]

/-- The write loop cannot move, whatever the socket does. -/
theorem writeStep_of_deadlock (written : Bool) : state.writeStep written = none := by
  have full : ∀ body, state.deliver body = none :=
    fun body => (deliver_none_iff state body).mpr locked.incoming
  cases place : state.writer with
  | none => simp [ClientState.writeStep, place]
  | some pc =>
      rcases writer_of_deadlock locked place with sends | rfl
      · obtain ⟨_, _, rfl⟩ := ClientWriterPc.sends_cases sends
        simp [ClientState.writeStep, place, ClientExitPc.advance, full]
      · simp [ClientState.writeStep, place, ClientExitPc.advance]

/-- Nothing can be sent to the write loop either. -/
theorem outgoing_of_deadlock (message : ClientMessage) :
    state.outgoing.trySend message = none := by
  rw [Channel.trySend_eq_none_iff, locked.outgoing]
  omega

/-- The maintenance loop is about to send, or waits for the loops of the connection. -/
theorem mantain_of_deadlock :
    (∃ flags token session, state.mantain = .announce flags token session) ∨
      (∃ token session, state.mantain = .sendSettings token session) ∨
        state.mantain = .awaiting := by
  cases locked.awaits with
  | sends sends => exact (MantainPc.sends_cases sends).imp_right .inl
  | read pc | written pc => exact .inr (.inr pc)

/-- In a deadlock nobody can move. -/
theorem stuck_of_deadlock : state.Stuck := by
  obtain ⟨message, flags, token, forward⟩ := locked.forward
  intro label task
  cases label with
  | mantain => exact mantainStep_of_deadlock locked
  | read => exact (readStep_of_deadlock locked).1
  | shutSocket succeeded => exact (readStep_of_deadlock locked).2 succeeded
  | write written => exact writeStep_of_deadlock locked written
  | forward =>
      simp [clientMachine, ClientState.step, ClientState.forwardStep, forward,
        outgoing_of_deadlock locked]
  | main =>
      rcases mantain_of_deadlock locked with ⟨_, _, _, pc⟩ | ⟨_, _, pc⟩ | pc <;>
        simp [clientMachine, ClientState.step, ClientState.mainStep, pc, forward]
  | connect | wait =>
      rcases mantain_of_deadlock locked with ⟨_, _, _, pc⟩ | ⟨_, _, pc⟩ | pc <;>
        simp [clientMachine, ClientState.step, ClientState.connectStep, ClientState.waitStep, pc]
  | shutdown | trySend => exact absurd rfl task

/-- Nor does user code end it. -/
theorem deadlock_of_step (taken : clientMachine.step state label = some after) :
    after.Deadlocked := by
  by_cases task : label.task = .user
  · cases label with
    | shutdown =>
        cases taken
        cases locked.awaits with
        | sends pc idle => exact ⟨locked.forward, locked.outgoing, locked.incoming, .sends pc idle⟩
        | read pc reads writes sends ends =>
            exact ⟨locked.forward, locked.outgoing, locked.incoming,
              .read pc reads writes sends ends⟩
        | written pc reads writes sends ends =>
            exact ⟨locked.forward, locked.outgoing, locked.incoming,
              .written pc reads writes sends ends⟩
    | trySend tr =>
        simp only [clientMachine, ClientState.step, ClientState.trySendStep,
          outgoing_of_deadlock locked, Option.some.injEq] at taken
        rwa [← taken]
    | _ => cases task
  · rw [stuck_of_deadlock locked label task] at taken
    cases taken

end Deadlock

/-- In every run, a client none of whose tasks can move has left its maintenance loop or is in a
deadlock, which lasts whatever happens. -/
theorem client_stops {autoReconnect : Bool} {trace : List (ClientState × ClientLabel)}
    (run : clientMachine.Run (.start autoReconnect) trace state) : ClientStops state where
  stuck := deadlocked_of_stuck run
  lasts := by
    intro locked further final onward
    have lasts : final.Deadlocked := by
      induction onward with
      | nil => exact locked
      | snoc prior taken ih => exact deadlock_of_step ih taken
    exact ⟨stuck_of_deadlock lasts, lasts⟩

/-- A client that was shut down before it connected stops. -/
theorem shutdownFirst_stops :
    ∃ state, clientMachine.Run (.start true)
        (clientMachine.traceOf (.start true) shutdownFirst) state ∧
      state.exitLoop ∧ ClientStops state := by
  obtain ⟨state, run, left⟩ := @Machine.run_of_exec_any _ _ clientMachine (.start true)
    shutdownFirst ClientState.exitLoop (by decide)
  exact ⟨state, run, left, client_stops run⟩

end H2l
