import H2l.Client.Notice

/-!
# Notices across connections

A notice for the write loop carries no connection, and the outgoing channel outlives a
connection: one that is queued after the write loop has emptied the channel ends the write
loop of the next connection. `ownEvents_of_timely` says that a connection is only closed by
its own events in every run whose notices are queued in time; `staleNotice_not_own` is a run
in which one is not.
-/

namespace H2l

open Base

/-- The loop has left its loop. -/
def ClientReaderPc.left : ClientReaderPc → Bool
  | reading _ | naming _ _ | delivering _ _ _ => false
  | shutting | closing _ | panicked => true

/-- The loop has not finished emptying the outgoing channel. -/
def ClientWriterPc.drains : ClientWriterPc → Bool
  | receiving | writing _ | flushing => true
  | closing _ => false

namespace ClientState

/-- The step takes the write loop out of its receive loop. -/
def LeavesReceiving (state : ClientState) (label : ClientLabel) : Prop :=
  ∃ pc after, state.writer = some pc ∧ pc.receives ∧
    clientMachine.step state label = some after ∧ ∀ pc ∈ after.writer, pc.receives = false

/-- A write to the current connection fails in the step. -/
def WriteFails (state : ClientState) (label : ClientLabel) : Prop :=
  ∃ tr, state.writer = some (.writing tr) ∧ label = .write false

/-- The write loop takes a notice that ends it. -/
def TakesNotice (state : ClientState) (label : ClientLabel) (notice : ClientMessage) : Prop :=
  ∃ written outgoing, label = .write written ∧ state.writer = some .receiving ∧
    state.outgoing.recv = some (notice, outgoing) ∧ notice.body.closesRead

/-- The write loop is there and has not finished emptying the outgoing channel. -/
def drains (state : ClientState) : Bool := state.writer.any ClientWriterPc.drains

/-- The read loop of the current connection has left its loop. -/
def readLeft (state : ClientState) : Bool := state.reader.any ClientReaderPc.left

/-- A notice that ends a write loop is queued only for the current connection, after its read
loop has left its loop and before its write loop has emptied the channel. The forward loop
sends one only after a message of the read loop or the write loop, when the former holds. -/
def timely (state : ClientState) : ClientLabel → Bool
  | .forward =>
      match state.forward with
      | .notifying message flags _ =>
          !FlagSet.contains flags ClientFlags.readClosed ||
            message.connection == state.connections && state.drains
      | _ => true
  | .trySend tr =>
      !tr.closesRead || (state.outgoing.trySend ⟨tr, state.connections⟩).isNone ||
        state.readLeft && state.drains
  | _ => true

end ClientState

/-- The step sends no notice of a connection to the write loop of a later one. -/
abbrev NoticeTimely (state : ClientState) (label : ClientLabel) : Prop := state.timely label

/-- What takes a connection's write loop out of its receive loop is an event of the connection:
a write that fails, or the end of its read loop. -/
structure OwnEvents (state : ClientState) (label : ClientLabel) : Prop where
  leaves : state.LeavesReceiving label → state.WriteFails label ∨ state.readLeft
  notice : ∀ notice, state.TakesNotice label notice → notice.connection = state.connections

/-- The message that the forward loop has taken and not yet handed to the user's closure. -/
def ClientForwardPc.message : ClientForwardPc → Option ClientMessage
  | handling message | loadFlags message | loadToken message _ | notifying message _ _
  | calling message => some message
  | receiving | exited => none

/-- The message for which the forward loop is about to send a notice. -/
def ClientForwardPc.noticed : ClientForwardPc → Option ClientMessage
  | loadFlags message | loadToken message _ | notifying message _ _ => some message
  | _ => none

/-- Messages that say that a read loop has closed, wherever they are. -/
structure ClosesInv (state : ClientState) : Prop where
  known : ∀ message ∈ state.history, message.connection ≤ state.connections
  closes : ∀ message ∈ state.history, message.body.closesRead →
    message.connection = state.connections →
      state.mantain.opens = false ∧ ∀ pc ∈ state.reader, pc.left
  taken : ∀ message ∈ state.forward.message, message ∈ state.consumed
  noticed : ∀ message ∈ state.forward.noticed, message.body.closesRead

/-- Every notice in the outgoing channel is for the current connection, whose read loop has left
its loop and whose write loop is going to take or discard it. -/
def TimelyInv (state : ClientState) : Prop :=
  ∀ notice ∈ state.outgoing.items, notice.body.closesRead →
    notice.connection = state.connections ∧ state.readLeft ∧ state.drains

variable {state after : ClientState} {label : ClientLabel}

/-- A read loop does not come back into its loop. -/
theorem left_of_reader (move : ClientReaderMove state after) :
    ∃ pc next, state.reader = some pc ∧ after.reader = some next ∧ (pc.left → next.left) := by
  cases move with
  | fetched pc | ended pc | unwound pc | named pc | delivered pc | shut pc | shutUnwound pc
  | exits pc => exact ⟨_, _, pc, rfl, by simp [ClientReaderPc.left]⟩

/-- A message that says that the read loop has closed is sent after it has. -/
theorem left_of_posting {body : Transaction} (quiet : QuietInv state) (flags : FlagsInv state)
    (posting : ClientPosting state label.task (some body)) (closes : body.closesRead) :
    state.mantain.attends ∧ ∀ pc ∈ state.reader, pc.left := by
  generalize label.task = task at posting
  cases posting with
  | announced pc =>
      have phase := flags.mantain
      rw [pc] at phase
      rw [Transaction.closesRead, ClientFlags.newly_not_read phase.2] at closes
      cases closes
  | settings => cases closes
  | delivered => cases closes
  | readExit pc =>
      refine ⟨attends_of_reader quiet pc, ?_⟩
      intro reader there
      cases pc.symm.trans there
      rfl
  | @writeExit flags' token pc =>
      refine ⟨attends_of_writer quiet pc, ?_⟩
      intro reader there
      have loops := flags.loops reader there _ pc
      cases reader with
      | reading | naming | delivering =>
          have absent := loops.read.absent rfl flags'
            (List.mem_cons_of_mem _ (List.mem_singleton_self _))
          rw [Transaction.closesRead, absent] at closes
          cases closes
      | shutting | closing | panicked => rfl

/-- The forward loop moves, or keeps what it has taken. -/
theorem forward_or_kept (move : ClientMove state label after) :
    ClientForwardMove state after ∨
      after.forward = state.forward ∧ after.consumed = state.consumed := by
  cases move with
  | forwarded move => exact .inl move
  | mantained move => exact .inr ⟨move.frame.forward, move.frame.consumed⟩
  | read move | shutSocket move => exact .inr ⟨move.frame.forward, move.frame.consumed⟩
  | wrote move => exact .inr ⟨move.frame.forward, move.frame.consumed⟩
  | _ => exact .inr ⟨rfl, rfl⟩

/-- What the forward loop has in hand is the message that it handles. -/
theorem onClientChanged_message {message other : ClientMessage}
    (holds : other ∈ (ClientState.onClientChanged message).message) : other = message := by
  unfold ClientState.onClientChanged at holds
  split at holds
  · split at holds
    · cases holds
    · split at holds
      · exact (Option.some.inj holds).symm
      · exact (Option.some.inj holds).symm
  · exact (Option.some.inj holds).symm

/-- A notice is only ever sent for a message that says that a read loop has closed. -/
theorem onClientChanged_noticed {message other : ClientMessage}
    (holds : other ∈ (ClientState.onClientChanged message).noticed) : other.body.closesRead := by
  unfold ClientState.onClientChanged at holds
  split at holds
  next flags token body =>
    split at holds
    · cases holds
    · split at holds
      next asks =>
        cases holds
        simp only [Bool.and_eq_true] at asks
        rw [body]
        exact asks.1
      · cases holds
  · cases holds

/-- The forward loop works on messages it has consumed, and notices only those that close. -/
theorem taken_of_forward (inv : ClosesInv state) (move : ClientForwardMove state after) :
    (∀ message ∈ after.forward.message, message ∈ after.consumed) ∧
      ∀ message ∈ after.forward.noticed, message.body.closesRead := by
  have taken := inv.taken
  have noticed := inv.noticed
  cases move with
  | received =>
      refine ⟨?_, fun _ => Option.not_mem_none _ |>.elim⟩
      rintro message ⟨⟩
      exact List.mem_append_right _ (List.mem_singleton_self _)
  | @handled message pc =>
      rw [pc] at taken
      refine ⟨fun other holds => ?_, fun other => onClientChanged_noticed⟩
      rw [onClientChanged_message holds]
      exact taken message rfl
  | loadedFlags pc | loadedToken pc =>
      rw [pc] at taken noticed
      exact ⟨taken, noticed⟩
  | notified pc =>
      rw [pc] at taken
      exact ⟨taken, fun _ => Option.not_mem_none _ |>.elim⟩
  | called =>
      exact ⟨fun _ => Option.not_mem_none _ |>.elim,
        fun _ => Option.not_mem_none _ |>.elim⟩

/-- Connections are never taken back. -/
theorem connections_le (move : ClientMove state label after) :
    state.connections ≤ after.connections := by
  rcases connections_of_move move with same | next <;> omega

/-- Once a read loop has left its loop it stays out of it. -/
theorem left_of_move (quiet : QuietInv state) (move : ClientMove state label after)
    (closed : state.mantain.opens = false) (left : ∀ pc ∈ state.reader, pc.left)
    (same : after.connections = state.connections) :
    after.mantain.opens = false ∧ ∀ pc ∈ after.reader, pc.left := by
  obtain ⟨closed, turn⟩ := turn_of_move quiet move closed same
  refine ⟨closed, ?_⟩
  cases turn with
  | apart _ _ loops => simp [loops.1]
  | read task move =>
      obtain ⟨pc, next, there, became, stays⟩ := left_of_reader move
      intro reader found
      cases became.symm.trans found
      exact stays (left pc there)
  | wrote task move => rwa [move.frame.reader]
  | forwarded move => rwa [move.frame.reader]
  | kept loops => rwa [loops.1]

/-- Every step keeps the invariant. -/
theorem closes_of_step (quiet : QuietInv state) (flags : FlagsInv state) (inv : ClosesInv state)
    (taken : clientMachine.step state label = some after) : ClosesInv after := by
  have move := ClientState.move_of_step taken
  obtain ⟨sent, posting, grows⟩ := posting_of_clientMove move
  have forward : (∀ message ∈ after.forward.message, message ∈ after.consumed) ∧
      ∀ message ∈ after.forward.noticed, message.body.closesRead := by
    rcases forward_or_kept move with move | ⟨kept, consumed⟩
    · exact taken_of_forward inv move
    · rw [kept, consumed]
      exact ⟨inv.taken, inv.noticed⟩
  have known : ∀ message ∈ after.history, message.connection ≤ state.connections := by
    intro message member
    rw [grows] at member
    rcases List.mem_append.mp member with earlier | new
    · exact inv.known message earlier
    · obtain ⟨body, -, rfl⟩ : ∃ body, sent = some body ∧ ⟨body, state.connections⟩ = message := by
        simpa [ClientState.tagged] using new
      exact Nat.le_refl _
  refine ⟨fun message member => Nat.le_trans (known message member) (connections_le move), ?_,
    forward.1, forward.2⟩
  intro message member closes current
  have same : after.connections = state.connections := by
    have bound := known message member
    have grown := connections_le move
    omega
  rw [grows] at member
  rcases List.mem_append.mp member with earlier | new
  · obtain ⟨closed, left⟩ := inv.closes message earlier closes (current.trans same)
    exact left_of_move quiet move closed left same
  · obtain ⟨body, rfl, rfl⟩ : ∃ body, sent = some body ∧ ⟨body, state.connections⟩ = message := by
      simpa [ClientState.tagged] using new
    obtain ⟨attends, left⟩ := left_of_posting quiet flags posting closes
    exact left_of_move quiet move (opens_of_attends attends) left same

/-- The invariant holds before the first step. -/
theorem closes_start (autoReconnect : Bool) : ClosesInv (.start autoReconnect) where
  known _ member := absurd member List.not_mem_nil
  closes _ member := absurd member List.not_mem_nil
  taken _ := Option.not_mem_none _ |>.elim
  noticed _ := Option.not_mem_none _ |>.elim

/-- In every reachable state a closing message tells of a loop that has closed. -/
theorem closes_of_reachable (reachable : clientMachine.Reachable state) : ClosesInv state := by
  obtain ⟨_, trace, ⟨autoReconnect, rfl⟩, run⟩ := reachable
  refine @Machine.Run.traceInvariant _ _ _ (fun _ state => ClosesInv state) _ _ _ run
    (closes_start autoReconnect) ?_
  intro trace before label after prior inv taken
  have reachable : clientMachine.Reachable before := ⟨_, _, ⟨autoReconnect, rfl⟩, prior⟩
  exact closes_of_step (quiet_of_reachable reachable) (flags_of_reachable reachable) inv taken

/-- What is in the outgoing channel was there before, is the notice of the forward loop, or comes
from user code. -/
inductive OutgoingOrigin (state : ClientState) (label : ClientLabel) (notice : ClientMessage) :
    Prop where
  | earlier (member : notice ∈ state.outgoing.items)
  | notified {message flags token} (task : label = .forward)
      (pc : state.forward = .notifying message flags token)
      (sent : notice = ⟨.clientChanged flags token, message.connection⟩)
  | user {tr outgoing} (task : label = .trySend tr)
      (sends : state.outgoing.trySend ⟨tr, state.connections⟩ = some outgoing)
      (sent : notice = ⟨tr, state.connections⟩)

/-- Where a message of the outgoing channel comes from. -/
theorem origin_of_move {notice : ClientMessage} (move : ClientMove state label after)
    (member : notice ∈ after.outgoing.items) : OutgoingOrigin state label notice := by
  cases move with
  | mantained move => exact .earlier (move.frame.outgoing ▸ member)
  | read move | shutSocket move => exact .earlier (move.frame.outgoing ▸ member)
  | wrote move =>
      cases move with
      | received _ receives | discarded _ receives =>
          exact .earlier (Channel.recv_items receives ▸ List.mem_cons_of_mem _ member)
      | _ => exact .earlier member
  | forwarded move =>
      cases move with
      | notified pc sends =>
          rw [Channel.trySend_items sends] at member
          rcases List.mem_append.mp member with member | new
          · exact .earlier member
          · exact .notified rfl pc (List.mem_singleton.mp new)
      | _ => exact .earlier member
  | queued sends =>
      rw [Channel.trySend_items sends] at member
      rcases List.mem_append.mp member with member | new
      · exact .earlier member
      · exact .user rfl sends (List.mem_singleton.mp new)
  | _ => exact .earlier member

/-- A notice that is queued in time is for the current connection, which is about to end. -/
theorem timely_of_origin {notice : ClientMessage} (flags : FlagsInv state)
    (closes : ClosesInv state) (inv : TimelyInv state) (timely : state.timely label)
    (origin : OutgoingOrigin state label notice) (ends : notice.body.closesRead) :
    notice.connection = state.connections ∧ state.readLeft ∧ state.drains := by
  cases origin with
  | earlier member => exact inv notice member ends
  | @notified message flags' token task pc sent =>
      subst task sent
      have read : FlagSet.contains flags' ClientFlags.readClosed := ends
      simp only [ClientState.timely, pc, read, Bool.not_true, Bool.false_or, Bool.and_eq_true,
        beq_iff_eq] at timely
      refine ⟨timely.1, ?_, timely.2⟩
      have member : message ∈ state.history :=
        List.mem_append_left _ (closes.taken message (by rw [pc]; rfl))
      have left := (closes.closes message member (closes.noticed message (by rw [pc]; rfl))
        timely.1).2
      have runs : state.reader.isSome := by
        rw [flags.paired]
        exact Option.isSome_of_any timely.2
      obtain ⟨reader, there⟩ := Option.isSome_iff_exists.mp runs
      rw [ClientState.readLeft, there]
      exact left reader there
  | user task sends sent =>
      subst task sent
      simp only [ClientState.timely, ends, sends, Bool.not_true, Bool.false_or, Option.isNone_some,
        Bool.and_eq_true] at timely
      exact ⟨rfl, timely⟩

/-- A write loop that empties the channel takes every notice out of it. -/
theorem drains_of_wrote {notice : ClientMessage} (move : ClientWriterMove state after)
    (drains : state.drains) (member : notice ∈ after.outgoing.items) : after.drains := by
  cases move with
  | @received message outgoing =>
      simp only [ClientState.drains, Option.any_some]
      rcases ClientWriterPc.received_cases message.body with is | is | is <;> rw [is] <;> rfl
  | wrote | failed => rfl
  | discarded => exact drains
  | flushed pc empty =>
      obtain ⟨rest, items⟩ := List.exists_cons_of_ne_nil (List.ne_nil_of_mem member)
      obtain ⟨outgoing, receives, -⟩ := Channel.recv_of_items items.choose_spec
      cases empty.symm.trans receives
  | exits place =>
      rw [ClientState.drains, place] at drains
      cases drains

/-- While a notice is queued for a connection, the connection stays the current one. -/
theorem ending_of_move {notice : ClientMessage} (quiet : QuietInv state)
    (move : ClientMove state label after) (left : state.readLeft) (drains : state.drains)
    (member : notice ∈ after.outgoing.items) :
    after.connections = state.connections ∧ after.readLeft ∧ after.drains := by
  obtain ⟨writer, there, drainsW⟩ := (Option.any_eq_true _ _).mp drains
  have attends := attends_of_writer quiet there
  have same : after.connections = state.connections := by
    cases move with
    | connected pc => rw [pc] at attends; cases attends
    | mantained move => exact move.frame.connections
    | read move | shutSocket move => exact move.frame.connections
    | wrote move => exact move.frame.connections
    | forwarded move => exact move.frame.connections
    | _ => rfl
  refine ⟨same, ?_⟩
  cases (turn_of_move quiet move (opens_of_attends attends) same).2 with
  | apart _ written =>
      cases written writer there
      cases drainsW
  | read task move =>
      obtain ⟨pc, next, found, became, stays⟩ := left_of_reader move
      rw [ClientState.readLeft, found] at left
      exact ⟨by rw [ClientState.readLeft, became]; exact stays left,
        by rw [ClientState.drains, move.frame.writer]; exact drains⟩
  | wrote task move =>
      exact ⟨by rw [ClientState.readLeft, move.frame.reader]; exact left,
        drains_of_wrote move drains member⟩
  | forwarded move =>
      exact ⟨by rw [ClientState.readLeft, move.frame.reader]; exact left,
        by rw [ClientState.drains, move.frame.writer]; exact drains⟩
  | kept loops =>
      exact ⟨by rw [ClientState.readLeft, loops.1]; exact left,
        by rw [ClientState.drains, loops.2]; exact drains⟩

/-- A step that queues in time keeps the channel in time. -/
theorem timely_of_move (quiet : QuietInv state) (flags : FlagsInv state)
    (closes : ClosesInv state) (inv : TimelyInv state) (timely : state.timely label)
    (move : ClientMove state label after) : TimelyInv after := by
  intro notice member ends
  obtain ⟨current, left, drains⟩ :=
    timely_of_origin flags closes inv timely (origin_of_move move member) ends
  obtain ⟨same, leaving⟩ := ending_of_move quiet move left drains member
  exact ⟨current.trans same.symm, leaving⟩

/-- Only the write loop leaves its receive loop, and on a notice or on a write that fails. -/
theorem leaves_cases (leaves : state.LeavesReceiving label) :
    state.WriteFails label ∨ ∃ notice, state.TakesNotice label notice := by
  obtain ⟨pc, after, place, goes, taken, left⟩ := leaves
  have stays : after.writer ≠ state.writer := by
    intro same
    rw [left pc (same.trans place)] at goes
    cases goes
  cases ClientState.move_of_step taken with
  | @wrote written =>
      simp only [clientMachine, ClientState.step, ClientState.writeStep, place] at taken
      cases pc with
      | receiving =>
          simp only [Option.map_eq_some_iff] at taken
          obtain ⟨⟨notice, outgoing⟩, receives, rfl⟩ := taken
          have ends := left _ rfl
          rw [receives_received, Bool.not_eq_false'] at ends
          exact .inr ⟨notice, _, outgoing, rfl, place, receives, ends⟩
      | writing tr =>
          cases taken
          have ends := left _ rfl
          cases written with
          | false => exact .inl ⟨tr, place, rfl⟩
          | true => cases ends
      | _ => cases goes
  | mantained move =>
      cases move with
      | spawned => cases left _ rfl
      | joined _ _ writer =>
          cases writer.symm.trans place
          cases goes
      | _ => exact absurd rfl stays
  | read move | shutSocket move => exact absurd move.frame.writer stays
  | forwarded move => exact absurd move.frame.writer stays
  | _ => exact absurd rfl stays

/-- A step from a state whose queued notices are in time is an event of the connection. -/
theorem own_of_timely (inv : TimelyInv state) : OwnEvents state label := by
  have notice : ∀ notice, state.TakesNotice label notice →
      notice.connection = state.connections ∧ state.readLeft := by
    rintro notice ⟨written, outgoing, -, place, receives, ends⟩
    have member : notice ∈ state.outgoing.items :=
      Channel.recv_items receives ▸ List.mem_cons_self
    obtain ⟨current, left, -⟩ := inv notice member ends
    exact ⟨current, left⟩
  refine ⟨fun leaves => ?_, fun taken takes => (notice taken takes).1⟩
  rcases leaves_cases leaves with fails | ⟨taken, takes⟩
  · exact .inl fails
  · exact .inr (notice taken takes).2

/-- In every run whose notices are queued in time, a connection is only closed by its own events:
its write loop leaves its receive loop only on a write that fails or after its read loop has left
its loop, and takes no notice of an earlier connection. -/
theorem ownEvents_of_timely {autoReconnect : Bool} {trace : List (ClientState × ClientLabel)}
    {state : ClientState} (run : clientMachine.Run (.start autoReconnect) trace state)
    (timely : Machine.Guarded NoticeTimely trace) : Machine.Guarded OwnEvents trace := by
  suffices both : Machine.Guarded NoticeTimely trace →
      Machine.Guarded OwnEvents trace ∧ TimelyInv state from (both timely).1
  refine @Machine.Run.traceInvariant _ _ _ (fun trace state =>
    Machine.Guarded NoticeTimely trace → Machine.Guarded OwnEvents trace ∧ TimelyInv state)
    _ _ _ run ?_ ?_
  · intro _
    exact ⟨Machine.guarded_nil _, fun _ member => absurd member List.not_mem_nil⟩
  · intro trace before label after prior ih taken timely
    have reachable : clientMachine.Reachable before := ⟨_, _, ⟨autoReconnect, rfl⟩, prior⟩
    obtain ⟨earlier, last⟩ := Machine.guarded_snoc_iff.mp timely
    obtain ⟨own, inv⟩ := ih earlier
    exact ⟨Machine.guarded_snoc_iff.mpr ⟨own, own_of_timely inv⟩,
      timely_of_move (quiet_of_reachable reachable) (flags_of_reachable reachable)
        (closes_of_reachable reachable) inv last (ClientState.move_of_step taken)⟩

/-- A first connection whose write loop empties the channel and ends, while the forward loop is
about to send the notice of its read loop, and a second connection. -/
def staleNotice : List ClientLabel :=
  List.flatten [[.mantain, .connect (.connected 7 shortPeer)], List.replicate 9 .mantain,
    [.read, .shutSocket true], List.replicate 5 .read, List.replicate 10 .forward,
    [.trySend (.bytes [0] none), .write true], List.replicate 7 (.write false),
    List.replicate 8 .mantain, [.connect (.connected 8 shortPeer)], List.replicate 9 .mantain,
    [.forward]]

/-- The write loop of a second connection is about to take a notice, and its read loop is still
reading. -/
def ClientState.closing (state : ClientState) : Bool :=
  state.connections == 2 && state.writer == some .receiving && !state.readLeft &&
    state.outgoing.recv.any fun taken => taken.1.body.closesRead

/-- A connection that ends, and the client that connects again. -/
theorem ownEvents_of_timely_reconnecting :
    ∃ state trace, clientMachine.Run (.start true) trace state ∧ state.connections = 1 ∧
      Machine.Guarded OwnEvents trace := by
  obtain ⟨state, run, connected⟩ := @Machine.run_of_exec_any _ _ clientMachine (.start true)
    reconnecting (fun state => state.connections == 1) (by decide)
  have timely : Machine.Guarded NoticeTimely
      (clientMachine.traceOf (.start true) reconnecting) := by
    unfold Machine.Guarded
    decide
  exact ⟨state, _, run, by simpa using connected, ownEvents_of_timely run timely⟩

/-- The write loop of the second connection leaves its receive loop, on the notice of the first,
while its read loop is still reading. -/
theorem staleNotice_not_own :
    ∃ state trace, clientMachine.Run (.start true) trace state ∧ state.connections = 2 ∧
      ¬ Machine.Guarded OwnEvents trace := by
  obtain ⟨state, run, closing⟩ := @Machine.run_of_exec_any _ _ clientMachine (.start true)
    staleNotice ClientState.closing (by decide)
  simp only [ClientState.closing, Bool.and_eq_true, beq_iff_eq, Bool.not_eq_true',
    Option.any_eq_true] at closing
  obtain ⟨⟨⟨second, place⟩, reading⟩, ⟨notice, outgoing⟩, receives, ends⟩ := closing
  have taken : clientMachine.step state (.write true) =
      some { state with outgoing, writer := some (.received notice.body) } := by
    simp [clientMachine, ClientState.step, ClientState.writeStep, place, receives]
  refine ⟨_, _, run.snoc taken, second, fun own => ?_⟩
  have leaves : state.LeavesReceiving (.write true) := by
    refine ⟨_, _, place, rfl, taken, ?_⟩
    rintro _ ⟨⟩
    rw [receives_received, ends]
    rfl
  rcases (Machine.guarded_snoc_iff.mp own).2.leaves leaves with ⟨tr, writing, -⟩ | left
  · cases place.symm.trans writing
  · rw [reading] at left
    cases left

end H2l
