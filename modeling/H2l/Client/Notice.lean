import H2l.Client.Log

/-!
# The notice that ends a write loop

A read loop that has ended sends a message, for which the forward loop sends a notice to
the write loop. `closeNotice_pending` says that the notice is never lost while the write
loop of the connection waits for it, and that forwarding and writing alone bring the
write loop out of its receive loop.
-/

namespace H2l

open Base

/-- Between receiving an exit message and sending the notice for it. -/
inductive ClientForwardPc.Notifies (message : ClientMessage) : ClientForwardPc → Prop where
  | handling (asks : message.body.asksNotice) : Notifies message (.handling message)
  | loadFlags : Notifies message (.loadFlags message)
  | loadToken {flags} (read : FlagSet.contains flags ClientFlags.readClosed) :
      Notifies message (.loadToken message flags)
  | notifying {flags token} (read : FlagSet.contains flags ClientFlags.readClosed) :
      Notifies message (.notifying message flags token)

/-- The exit message of a read loop is queued, the forward loop is at work on it, or the write
loop has a notice queued. -/
inductive NoticePending (state : ClientState) (message : ClientMessage) : Prop where
  | queued (member : message ∈ state.incoming.items) (asks : message.body.asksNotice)
  | taken (notifies : state.forward.Notifies message)
  | sent {notice} (member : notice ∈ state.outgoing.items) (closes : notice.body.closesRead)

/-- The loops when a read loop has sent this exit message. -/
structure ReadReported (state : ClientState) (message : ClientMessage) : Prop where
  closed : state.mantain.opens = false
  reader : ∀ pc ∈ state.reader, pc = .closing .finished
  pending : ∀ pc ∈ state.writer, pc.receives → NoticePending state message

variable {state after : ClientState} {message : ClientMessage}

/-- A write loop goes on unless it has taken a notice. -/
theorem receives_received (tr : Transaction) :
    (ClientWriterPc.received tr).receives = !tr.closesRead := by
  cases tr with
  | clientChanged flags token =>
      simp only [ClientWriterPc.received, Transaction.closesRead]
      cases FlagSet.contains flags ClientFlags.readClosed <;> rfl
  | _ => rfl

/-- The forward loop goes for the flags of a notice. -/
theorem onClientChanged_of_asks (asks : message.body.asksNotice)
    (quiet : message.body.announcesExit = false) :
    ClientState.onClientChanged message = .loadFlags message := by
  cases body : message.body with
  | clientChanged flags token =>
      rw [body] at asks quiet
      simp only [Transaction.asksNotice] at asks
      simp only [Transaction.announcesExit] at quiet
      simp only [ClientState.onClientChanged, body, asks, quiet]
      rfl
  | _ => rw [body] at asks; cases asks

/-- The forward loop goes on from the message to its notice, where the word has the flag of the
read loop. -/
theorem pending_of_notifies (quiet : QuietInv state)
    (read : FlagSet.contains (clientFlags state.word) ClientFlags.readClosed)
    (notifies : state.forward.Notifies message) (move : ClientForwardMove state after) :
    NoticePending after message := by
  cases move with
  | received pc | called pc => rw [pc] at notifies; cases notifies
  | handled pc =>
      rw [pc] at notifies
      cases notifies with
      | handling asks =>
          have silent := quiet.handling message (by rw [pc]; exact List.mem_singleton_self _)
          refine .taken ?_
          rw [onClientChanged_of_asks asks silent]
          exact .loadFlags
  | loadedFlags pc =>
      rw [pc] at notifies
      cases notifies with
      | loadFlags => exact .taken (.loadToken read)
  | loadedToken pc =>
      rw [pc] at notifies
      cases notifies with
      | loadToken has => exact .taken (.notifying has)
  | @notified other flags token outgoing pc sends =>
      rw [pc] at notifies
      cases notifies with
      | notifying has =>
          have member : ⟨.clientChanged flags token, message.connection⟩ ∈ outgoing.items := by
            rw [Channel.trySend_items sends]
            exact List.mem_append_right _ (List.mem_singleton_self _)
          exact .sent member has

/-- A step of the forward loop keeps the message or its notice on its way. -/
theorem NoticePending.forward (quiet : QuietInv state)
    (read : FlagSet.contains (clientFlags state.word) ClientFlags.readClosed)
    (pending : NoticePending state message) (move : ClientForwardMove state after) :
    NoticePending after message := by
  cases pending with
  | queued member asks =>
      cases move with
      | received pc receives =>
          rw [Channel.recv_items receives] at member
          rcases List.mem_cons.mp member with rfl | member
          · exact .taken (.handling asks)
          · exact .queued member asks
      | _ => exact .queued member asks
  | taken notifies => exact pending_of_notifies quiet read notifies move
  | sent member closes =>
      cases move with
      | notified pc sends =>
          exact .sent (Channel.trySend_items sends ▸ List.mem_append_left _ member) closes
      | _ => exact .sent member closes

/-- A notice on its way stays so while neither channel loses a message. -/
theorem NoticePending.mono (pending : NoticePending state message)
    (incoming : state.incoming.items ⊆ after.incoming.items)
    (forward : after.forward = state.forward)
    (outgoing : state.outgoing.items ⊆ after.outgoing.items) : NoticePending after message := by
  cases pending with
  | queued member asks => exact .queued (incoming member) asks
  | taken notifies => exact .taken (forward ▸ notifies)
  | sent member closes => exact .sent (outgoing member) closes

/-- A write loop that goes on receiving leaves the notice where it is. -/
theorem pending_of_writer
    (pending : ∀ pc ∈ state.writer, pc.receives → NoticePending state message)
    (move : ClientWriterMove state after) :
    ∀ pc ∈ after.writer, pc.receives → NoticePending after message := by
  rintro pc place goes
  cases move with
  | @received other outgoing before receives =>
      cases place
      cases pending _ before rfl with
      | queued member asks => exact .queued member asks
      | taken notifies => exact .taken notifies
      | sent member closes =>
          rw [Channel.recv_items receives] at member
          rcases List.mem_cons.mp member with rfl | member
          · rw [receives_received, closes] at goes
            cases goes
          · exact .sent member closes
  | wrote before =>
      exact (pending _ before rfl).mono (List.Subset.refl _) rfl (List.Subset.refl _)
  | failed | flushed | exits => cases place; cases goes
  | discarded before =>
      cases before.symm.trans place
      cases goes

/-- A write loop in its receive loop has not undone the store of the read loop. -/
theorem ReadReported.read (reported : ReadReported state message) (flags : FlagsInv state)
    {pc : ClientWriterPc} (place : state.writer = some pc) (goes : pc.receives) :
    FlagSet.contains (clientFlags state.word) ClientFlags.readClosed := by
  have runs : state.reader.isSome := by rw [flags.paired, place]; rfl
  obtain ⟨reader, there⟩ := Option.isSome_iff_exists.mp runs
  have loops := flags.loops reader there pc place
  obtain rfl := reported.reader reader there
  exact loops.read.present rfl (exit_of_receives goes)

/-- Once its loops have ended, a connection needs no notice any more. -/
theorem reported_of_apart (apart : after.reader = none ∧ after.writer = none)
    (closed : after.mantain.opens = false) : ReadReported after message where
  closed := closed
  reader := by simp [apart.1]
  pending := by simp [apart.2]

/-- Every step of the same connection keeps what follows from its exit message. -/
theorem ReadReported.step {label : ClientLabel} (quiet : QuietInv state) (flags : FlagsInv state)
    (reported : ReadReported state message) (move : ClientMove state label after)
    (same : after.connections = state.connections) : ReadReported after message := by
  obtain ⟨closed, turn⟩ := turn_of_move quiet move reported.closed same
  cases turn with
  | apart _ _ loops => exact reported_of_apart loops closed
  | read task move =>
      cases move with
      | exits place advances =>
          cases reported.reader _ place
          cases advances
      | _ place => cases reported.reader _ place
  | wrote task move =>
      have kept := move.frame
      exact ⟨closed, kept.reader ▸ reported.reader, pending_of_writer reported.pending move⟩
  | forwarded move =>
      have kept := move.frame
      refine ⟨closed, kept.reader ▸ reported.reader, ?_⟩
      intro pc place goes
      rw [kept.writer] at place
      exact (reported.pending pc place goes).forward quiet (reported.read flags place goes) move
  | kept loops token forward incoming consumed outgoing =>
      refine ⟨closed, loops.1 ▸ reported.reader, ?_⟩
      intro pc place goes
      refine (reported.pending pc (loops.2 ▸ place) goes).mono (by rw [incoming]; exact fun _ => id)
        forward ?_
      rcases outgoing with same | ⟨tr, -, sends⟩
      · rw [same]
        exact fun _ => id
      · rw [Channel.trySend_items sends]
        exact List.subset_append_left _ _

/-- What a read loop's exit message says while the write loop is still in its receive loop. -/
theorem asksNotice_of_exit (loops : FlagsInv state) {flags : ClientFlags} {token : Token}
    (pc : state.reader = some (.closing (.announce flags token))) {writer : ClientWriterPc}
    (place : state.writer = some writer) (goes : writer.receives) :
    (Transaction.clientChanged flags token).asksNotice := by
  have sides := loops.loops _ pc writer place
  rw [exit_of_receives goes] at sides
  have read := sides.read.shown rfl flags (List.mem_singleton_self _)
  have write := sides.write.absent rfl flags (List.mem_cons_of_mem _ (List.mem_singleton_self _))
  simp only [Transaction.asksNotice, read, write]
  rfl

/-- The step that sends the exit message of a read loop. -/
theorem reported_of_exit (quiet : QuietInv state) (loops : FlagsInv state) {flags : ClientFlags}
    {token : Token} (pc : state.reader = some (.closing (.announce flags token)))
    (move : ClientReaderMove state after) :
    ReadReported after ⟨.clientChanged flags token, state.connections⟩ := by
  have attends := attends_of_reader quiet pc
  cases move with
  | exits there advances sends =>
      rw [pc] at there
      cases there
      cases advances
      refine ⟨opens_of_attends attends, fun _ ended => (Option.some.inj ended).symm, ?_⟩
      intro writer place goes
      have member := List.mem_append_right state.incoming.items (List.mem_singleton_self
        (⟨.clientChanged flags token, state.connections⟩ : ClientMessage))
      exact .queued (sends.symm ▸ member) (asksNotice_of_exit loops pc place goes)
  | _ there => rw [pc] at there; cases there

/-- What the log of a run says of the exit messages of read loops. -/
def ReportedInv (trace : List (ClientState × ClientLabel)) (state : ClientState) : Prop :=
  ∀ message, ⟨.readLoop, message⟩ ∈ sentLog trace → message.body.isClientChanged →
    message.connection ≤ state.connections ∧
      (message.connection = state.connections → ReadReported state message)

/-- A step keeps what the log says of the exit messages. -/
theorem reported_of_step {trace : List (ClientState × ClientLabel)} {label : ClientLabel}
    (quiet : QuietInv state) (flags : FlagsInv state) (inv : ReportedInv trace state)
    (taken : clientMachine.step state label = some after) :
    ReportedInv (trace ++ [(state, label)]) after := by
  have move := ClientState.move_of_step taken
  intro message member exit
  obtain ⟨sent, posting, -, logs⟩ := @sentLog_of_step state after label trace taken
  rw [logs] at member
  rcases List.mem_append.mp member with earlier | new
  · obtain ⟨known, reported⟩ := inv message earlier exit
    rcases connections_of_move move with same | next
    · rw [same]
      exact ⟨known, fun current => (reported current).step quiet flags move same⟩
    · rw [next]
      exact ⟨Nat.le_succ_of_le known, fun current => absurd current (by omega)⟩
  · cases sent with
    | none => cases new
    | some body =>
        obtain ⟨task, rfl⟩ : ClientTask.readLoop = label.task ∧
            message = ⟨body, state.connections⟩ := by
          simpa [ClientState.tagged] using new
        rw [← task] at posting
        have reader : ClientReaderMove state after := by
          cases move with
          | read move | shutSocket move => exact move
          | _ => cases task
        have same : after.connections = state.connections := by cases reader <;> rfl
        rw [same]
        refine ⟨Nat.le_refl _, fun _ => ?_⟩
        cases posting with
        | delivered => cases exit
        | readExit pc => exact reported_of_exit quiet flags pc reader

/-- Every run keeps it. -/
theorem reported_of_run {autoReconnect : Bool} {trace : List (ClientState × ClientLabel)}
    (run : clientMachine.Run (.start autoReconnect) trace state) : ReportedInv trace state := by
  refine @Machine.Run.traceInvariant _ _ _ ReportedInv _ _ _ run ?_ ?_
  · intro message member
    cases member
  · intro trace before label after prior inv taken
    have reachable : clientMachine.Reachable before := ⟨_, _, ⟨autoReconnect, rfl⟩, prior⟩
    exact reported_of_step (quiet_of_reachable reachable) (flags_of_reachable reachable) inv taken

/-- How far the forward loop is from receiving again. -/
def ClientForwardPc.rank : ClientForwardPc → Nat
  | handling _ => 5
  | loadFlags _ => 4
  | loadToken _ _ => 3
  | notifying _ _ _ => 2
  | calling _ => 1
  | receiving | exited => 0

/-- How much forwarding and writing is left: a message costs the forward loop six steps, and
each of them at most one more notice to write. -/
def ClientState.undelivered (state : ClientState) : Nat :=
  3 * (6 * state.incoming.items.length + state.forward.rank) +
    2 * state.outgoing.items.length + (if state.writer = some .receiving then 0 else 1)

/-- The forward loop has at most four steps with a message. -/
theorem rank_onClientChanged (message : ClientMessage) :
    (ClientState.onClientChanged message).rank < 5 := by
  unfold ClientState.onClientChanged
  split
  · split
    · exact Nat.zero_lt_succ _
    · split <;> simp [ClientForwardPc.rank]
  · simp [ClientForwardPc.rank]

/-- Every step of the forward loop leaves less to do. -/
theorem undelivered_forward (move : ClientForwardMove state after) :
    after.undelivered < state.undelivered := by
  cases move with
  | received pc receives =>
      simp only [ClientState.undelivered, pc, Channel.recv_items receives, ClientForwardPc.rank,
        List.length_cons]
      omega
  | @handled message pc =>
      have lower := rank_onClientChanged message
      simp only [ClientState.undelivered, pc]
      simp only [ClientForwardPc.rank] at lower ⊢
      omega
  | notified pc sends =>
      simp only [ClientState.undelivered, pc, Channel.trySend_items sends, ClientForwardPc.rank,
        List.length_append, List.length_singleton]
      omega
  | loadedFlags pc | loadedToken pc | called pc =>
      simp only [ClientState.undelivered, pc, ClientForwardPc.rank]
      omega

/-- With room for a notice, the forward loop only ever waits for a message. -/
theorem forward_of_work (quiet : QuietInv state) (room : state.outgoing.items = [])
    (work : state.forward = .receiving → state.incoming.items ≠ []) :
    ∃ next, clientMachine.step state .forward = some next := by
  simp only [clientMachine, ClientState.step]
  cases pc : state.forward with
  | receiving =>
      obtain ⟨message, rest, items⟩ := List.exists_cons_of_ne_nil (work pc)
      obtain ⟨incoming, receives, -⟩ := Channel.recv_of_items items
      simp [ClientState.forwardStep, pc, receives]
  | notifying message flags token =>
      obtain ⟨outgoing, sends, -⟩ := Channel.trySend_of_lt
        ⟨.clientChanged flags token, message.connection⟩
        (show state.outgoing.items.length < 4096 by rw [room]; decide)
      simp [ClientState.forwardStep, pc, sends]
  | exited => exact absurd pc quiet.forward
  | _ => simp [ClientState.forwardStep, pc]

/-- The write loop is in its receive loop, or has just left it. -/
def ClientState.writerLeaving (state : ClientState) : Prop :=
  state.writer = some .flushing ∨ ∃ pc, state.writer = some pc ∧ pc.receives

/-- A write loop is in its receive loop after a message, or has just left it. -/
theorem leaving_received {tr : Transaction} (place : state.writer = some (.received tr)) :
    state.writerLeaving := by
  simp only [ClientState.writerLeaving, place]
  cases tr with
  | clientChanged flags token =>
      simp only [ClientWriterPc.received]
      split
      · exact .inl rfl
      · exact .inr ⟨_, rfl, rfl⟩
  | _ => exact .inr ⟨_, rfl, rfl⟩

/-- What the progress of a write loop that waits for its notice rests on. -/
structure AwaitsNotice (message : ClientMessage) (state : ClientState) : Prop where
  quiet : QuietInv state
  flags : FlagsInv state
  reported : ReadReported state message
  writer : state.writerLeaving

/-- A step of the same connection keeps the write loop's notice coming. -/
theorem AwaitsNotice.step {label : ClientLabel} (awaits : AwaitsNotice message state)
    (taken : clientMachine.step state label = some after)
    (same : after.connections = state.connections) (writer : after.writerLeaving) :
    AwaitsNotice message after :=
  have move := ClientState.move_of_step taken
  { quiet := quiet_of_move awaits.quiet move
    flags := flags_of_move awaits.quiet awaits.flags move
    reported := awaits.reported.step awaits.quiet awaits.flags move same
    writer }

/-- The write loop can write, or the forward loop can go on to the notice. -/
theorem AwaitsNotice.progress (awaits : AwaitsNotice message state)
    (stays : state.writer ≠ some .flushing) :
    ∃ label next, (label = .forward ∨ label = .write true) ∧
      clientMachine.step state label = some next ∧ AwaitsNotice message next ∧
      next.undelivered < state.undelivered := by
  rcases awaits.writer with left | ⟨pc, place, goes⟩
  · exact absurd left stays
  cases pc with
  | writing tr =>
      have taken : clientMachine.step state (.write true) =
          some { state with writer := some .receiving } := by
        simp [clientMachine, ClientState.step, ClientState.writeStep, place]
      refine ⟨_, _, .inr rfl, taken, awaits.step taken rfl (.inr ⟨_, rfl, rfl⟩), ?_⟩
      simp [ClientState.undelivered, place]
  | receiving =>
      cases items : state.outgoing.items with
      | cons notice rest =>
          obtain ⟨outgoing, receives, left⟩ := Channel.recv_of_items items
          have taken : clientMachine.step state (.write true) =
              some { state with outgoing, writer := some (.received notice.body) } := by
            simp [clientMachine, ClientState.step, ClientState.writeStep, place, receives]
          refine ⟨_, _, .inr rfl, taken, awaits.step taken rfl (leaving_received rfl), ?_⟩
          simp only [ClientState.undelivered, items, left, List.length_cons]
          split <;> omega
      | nil =>
          have work : state.forward = .receiving → state.incoming.items ≠ [] := by
            intro idle none
            cases awaits.reported.pending _ place goes with
            | queued member => rw [none] at member; cases member
            | taken notifies => rw [idle] at notifies; cases notifies
            | sent member => rw [items] at member; cases member
          obtain ⟨next, taken⟩ := forward_of_work awaits.quiet items work
          have move := ClientState.forward_move taken
          have kept := move.frame
          exact ⟨_, next, .inl rfl, taken,
            awaits.step taken kept.connections (.inr ⟨_, kept.writer.trans place, goes⟩),
            undelivered_forward move⟩
  | _ => cases goes

/-- In every run, once the read loop of the current connection has sent its exit message and
while the write loop is in its receive loop, the message or its notice is on its way, and the
forward loop and the write loop alone bring the write loop out. -/
theorem closeNotice_pending {autoReconnect : Bool} {trace : List (ClientState × ClientLabel)}
    {state : ClientState} (run : clientMachine.Run (.start autoReconnect) trace state)
    {message : ClientMessage} (posted : ⟨.readLoop, message⟩ ∈ sentLog trace)
    (exit : message.body.isClientChanged) (current : message.connection = state.connections)
    {writer : ClientWriterPc} (place : state.writer = some writer) (goes : writer.receives) :
    NoticePending state message ∧
      ∃ further final, clientMachine.Run state further final ∧
        (∀ taken ∈ further, taken.2 = .forward ∨ taken.2 = .write true) ∧
        final.writer = some .flushing := by
  have reachable : clientMachine.Reachable state := ⟨_, _, ⟨autoReconnect, rfl⟩, run⟩
  have reported := (reported_of_run run message posted exit).2 current
  refine ⟨reported.pending writer place goes, ?_⟩
  have awaits : AwaitsNotice message state :=
    ⟨quiet_of_reachable reachable, flags_of_reachable reachable, reported,
      .inr ⟨writer, place, goes⟩⟩
  exact Machine.leads_to_rest (fun _ => AwaitsNotice.progress) state awaits

/-- A connection whose read loop has sent its exit message, and nothing else has happened. -/
def readEnded : List ClientLabel :=
  .mantain :: .connect (.connected 7 shortPeer) ::
    (List.replicate 9 ClientLabel.mantain ++ .read :: .shutSocket true ::
      List.replicate 5 ClientLabel.read)

/-- The read loop ends in a run, and the forward and write loops alone bring the write loop out. -/
theorem closeNotice_pending_readEnded :
    ∃ state message, NoticePending state message ∧
      ∃ further final, clientMachine.Run state further final ∧
        (∀ taken ∈ further, taken.2 = .forward ∨ taken.2 = .write true) ∧
        final.writer = some .flushing := by
  obtain ⟨state, run, ended⟩ := @Machine.run_of_exec_any _ _ clientMachine (.start true)
    readEnded (fun state => state.connections == 1 && state.writer == some .receiving) (by decide)
  simp only [Bool.and_eq_true, beq_iff_eq] at ended
  have posted : (⟨.readLoop, ⟨.clientChanged (FlagSet.union ClientFlags.handshaked
      ClientFlags.readClosed) ⟨7⟩, 1⟩⟩ : Posted) ∈
      sentLog (clientMachine.traceOf (.start true) readEnded) := by
    decide
  exact ⟨state, _, closeNotice_pending run posted rfl ended.1.symm ended.2 rfl⟩

end H2l
