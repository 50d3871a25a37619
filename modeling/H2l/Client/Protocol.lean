import H2l.Client.Events

/-!
# The event protocol of a client

`EventProtocol` says what user code may rely on over any number of connections.
`eventProtocol_iff` says that it holds in every run in which no read loop meets a SETTINGS
header beyond its buffer: a read loop that unwinds sends no exit message.
-/

namespace H2l

open Base

/-- The handshake that a step completes. -/
def ClientLabel.handshake : ClientLabel → Option Handshake
  | .connect (.connected token stream) =>
      match Client.handshake stream with
      | (.ok settings, after) => some ⟨token, settings, after.input⟩
      | _ => none
  | _ => none

/-- The handshakes that completed in a run, oldest first. -/
def handshakes (trace : List (ClientState × ClientLabel)) : List Handshake :=
  trace.filterMap fun taken => taken.2.handshake

/-- What was sent for one connection. -/
def eventsOf (connection : Nat) (log : List Posted) : List ClientEvent :=
  log.filterMap fun posted =>
    if posted.message.connection = connection then some ⟨posted.task, posted.message.body⟩ else none

namespace ClientState

/-- The read loop of a connection has ended. -/
def readEnded (state : ClientState) (connection : Nat) : Prop :=
  connection < state.connections ∨
    state.mantain.opens = false ∧ ∀ pc ∈ state.reader, pc.ended

/-- The write loop of a connection has ended. -/
def writeEnded (state : ClientState) (connection : Nat) : Prop :=
  connection < state.connections ∨
    state.mantain.opens = false ∧ ∀ pc ∈ state.writer, pc.ended

/-- The read loop of the current connection has unwound. -/
def unwound (state : ClientState) : Bool :=
  match state.reader with
  | some .panicked => true
  | _ => false

/-- The read loop does not meet a SETTINGS header beyond its buffer. -/
def readsWithin (state : ClientState) : ClientLabel → Bool
  | .read =>
      match state.reader with
      | some (.reading input) => !(decide (9 ≤ input.content.length) &&
          decide ((headAt input.content).kind = .settings) && decide (256 < lengthAt input.content))
      | _ => true
  | _ => true

end ClientState

/-- A SETTINGS frame longer than its buffer would unwind the read loop; this step meets none. -/
abbrev ReadsWithin (state : ClientState) (label : ClientLabel) : Prop := state.readsWithin label

/-- The shutdown of a socket succeeds. -/
def ClientLabel.shuts : ClientLabel → Bool
  | .shutSocket succeeded => succeeded
  | _ => true

/-- A failing shutdown of the socket would unwind the read loop; this step has none. -/
abbrev SocketShuts (_ : ClientState) (label : ClientLabel) : Prop := label.shuts

/-- What a run puts on the incoming channel: for every completed handshake, in order, the events
of its connection, with exactly one exit message of each loop that has ended. -/
structure EventProtocol (trace : List (ClientState × ClientLabel)) (state : ClientState) :
    Prop where
  numbered : ∀ posted ∈ sentLog trace, 0 < posted.message.connection ∧
    posted.message.connection ≤ (handshakes trace).length
  ordered : (sentLog trace).Pairwise fun earlier later =>
    earlier.message.connection ≤ later.message.connection
  /-- The events of a connection are those of a whole one, or the first of them. -/
  events : ∀ index handshake, (handshakes trace)[index]? = some handshake →
    ∃ further, ConnectionEvents handshake (eventsOf (index + 1) (sentLog trace) ++ further)
  readExit : ∀ index handshake, (handshakes trace)[index]? = some handshake →
    state.readEnded (index + 1) →
      (sentBy .readLoop (eventsOf (index + 1) (sentLog trace))).countP
        Transaction.isClientChanged = 1
  writeExit : ∀ index handshake, (handshakes trace)[index]? = some handshake →
    state.writeEnded (index + 1) →
      (sentBy .writeLoop (eventsOf (index + 1) (sentLog trace))).countP
        Transaction.isClientChanged = 1
  whole : ∀ index handshake, (handshakes trace)[index]? = some handshake →
    state.readEnded (index + 1) → state.writeEnded (index + 1) →
      ConnectionEvents handshake (eventsOf (index + 1) (sentLog trace))
  /-- One newly handshaked event for each handshake, from the moment it is sent. -/
  counted : (sentLog trace).countP (fun posted => posted.message.body.announcesHandshake) +
    state.mantain.announces.toNat = (handshakes trace).length

/-- What the event protocol rests on: whole connections, and where the current one stands. -/
structure EventsInv (trace : List (ClientState × ClientLabel)) (state : ClientState) : Prop where
  connections : (handshakes trace).length = state.connections
  numbered : ∀ posted ∈ sentLog trace, 0 < posted.message.connection ∧
    posted.message.connection ≤ state.connections
  ordered : (sentLog trace).Pairwise fun earlier later =>
    earlier.message.connection ≤ later.message.connection
  past : ∀ index handshake, (handshakes trace)[index]? = some handshake →
    index + 1 < state.connections →
      ConnectionEvents handshake (eventsOf (index + 1) (sentLog trace))
  current : Current state (handshakes trace).getLast? (eventsOf state.connections (sentLog trace))
  counted : (sentLog trace).countP (fun posted => posted.message.body.announcesHandshake) +
    state.mantain.announces.toNat = state.connections

variable {state after : ClientState} {label : ClientLabel}
  {trace : List (ClientState × ClientLabel)} {handshake : Handshake}

/-- One more step adds the handshake that it completes. -/
theorem handshakes_snoc (trace : List (ClientState × ClientLabel)) (state : ClientState)
    (label : ClientLabel) :
    handshakes (trace ++ [(state, label)]) = handshakes trace ++ label.handshake.toList := by
  cases shakes : label.handshake <;> simp [handshakes, shakes]

/-- The events of a connection in two stretches of a log. -/
theorem eventsOf_append (connection : Nat) (first second : List Posted) :
    eventsOf connection (first ++ second) =
      eventsOf connection first ++ eventsOf connection second :=
  List.filterMap_append

/-- A step completes a handshake exactly where it adds a connection. -/
theorem handshake_of_move (move : ClientMove state label after) :
    after.connections = state.connections ∧ label.handshake = none ∨
      ∃ handshake, label.handshake = some handshake ∧ state.mantain = .connecting ∧
        after = { state with
          connections := state.connections + 1
          mantain := .storeToken handshake.token handshake.session } := by
  cases move with
  | @connected token stream settings rest pc shakes =>
      have shaken : ClientLabel.handshake (.connect (.connected token stream)) =
          some ⟨token, settings, rest.input⟩ := by
        simp only [ClientLabel.handshake, shakes]
      exact .inr ⟨_, shaken, pc, rfl⟩
  | refused pc shakes | unwound pc shakes =>
      exact .inl ⟨rfl, by simp only [ClientLabel.handshake, shakes]⟩
  | mantained move => exact .inl ⟨move.frame.connections, rfl⟩
  | read move | shutSocket move => exact .inl ⟨move.frame.connections, rfl⟩
  | wrote move => exact .inl ⟨move.frame.connections, rfl⟩
  | forwarded move => exact .inl ⟨move.frame.connections, rfl⟩
  | _ => exact .inl ⟨rfl, rfl⟩

section Posting

variable {more : Option Transaction} {posted : Posted}

/-- What a step posts, if anything, is about the current connection. -/
theorem connection_of_posted
    (member : posted ∈ (state.tagged more).map (Posted.mk label.task)) :
    posted.message.connection = state.connections := by
  obtain ⟨message, tagged, rfl⟩ := List.mem_map.mp member
  obtain ⟨body, -, rfl⟩ : ∃ body, more = some body ∧ ⟨body, state.connections⟩ = message := by
    simpa [ClientState.tagged] using tagged
  rfl

/-- What a step posts are events of the current connection. -/
theorem eventsOf_posted (state : ClientState) (label : ClientLabel) (more : Option Transaction) :
    eventsOf state.connections ((state.tagged more).map (Posted.mk label.task)) =
      more.toList.map (ClientEvent.mk label.task) := by
  cases more <;> simp [eventsOf, ClientState.tagged]

/-- What a step posts is not about another connection. -/
theorem eventsOf_other {connection : Nat} {log : List Posted}
    (apart : ∀ posted ∈ log, posted.message.connection ≠ connection) :
    eventsOf connection log = [] := by
  refine List.filterMap_eq_nil_iff.mpr fun posted member => ?_
  rw [if_neg (apart posted member)]

/-- A step announces a handshake as often as its message does. -/
theorem countP_posted (state : ClientState) (label : ClientLabel) (more : Option Transaction) :
    ((state.tagged more).map (Posted.mk label.task)).countP
        (fun posted => posted.message.body.announcesHandshake) =
      more.toList.countP Transaction.announcesHandshake := by
  cases more with
  | none => rfl
  | some body => simp [ClientState.tagged, List.countP_cons]

end Posting

/-- Before the first handshake nothing was sent, and no loop runs. -/
theorem current_none {events : List ClientEvent} (current : Current state none events) :
    events = [] ∧ state.reader = none := by
  cases current with
  | idle closed loops => exact ⟨rfl, loops.1⟩

/-- A step of the current connection. -/
theorem events_of_adds {more : Option Transaction} (inv : EventsInv trace state)
    (taken : clientMachine.step state label = some after)
    (same : after.connections = state.connections) (silent : label.handshake = none)
    (adds : Adds state label after (handshakes trace).getLast?
      (eventsOf state.connections (sentLog trace)) more) :
    EventsInv (trace ++ [(state, label)]) after := by
  have log : sentLog (trace ++ [(state, label)]) =
      sentLog trace ++ (state.tagged more).map (Posted.mk label.task) := by
    rw [sentLog_snoc, posted_of_history taken adds.history]
  have shakes : handshakes (trace ++ [(state, label)]) = handshakes trace := by
    rw [handshakes_snoc, silent, Option.toList_none, List.append_nil]
  refine ⟨?_, ?_, ?_, ?_, ?_, ?_⟩
  · rw [shakes, same, inv.connections]
  · rw [log, same]
    intro posted member
    rcases List.mem_append.mp member with earlier | new
    · exact inv.numbered posted earlier
    · rw [connection_of_posted new]
      refine ⟨Nat.pos_of_ne_zero fun none => ?_, Nat.le_refl _⟩
      have current := adds.current
      rw [List.eq_nil_of_length_eq_zero (inv.connections.trans none)] at current
      cases more with
      | none => cases new
      | some body => exact absurd (current_none current).1 (by simp)
  · rw [log, List.pairwise_append]
    refine ⟨inv.ordered, ?_, ?_⟩
    · cases more <;> simp [ClientState.tagged]
    · intro earlier member later new
      rw [connection_of_posted new]
      exact (inv.numbered earlier member).2
  · rw [shakes, log, same]
    intro index handshake found before
    have other : eventsOf (index + 1) ((state.tagged more).map (Posted.mk label.task)) = [] :=
      eventsOf_other fun posted new => by rw [connection_of_posted new]; omega
    rw [eventsOf_append, other, List.append_nil]
    exact inv.past index handshake found before
  · rw [shakes, log, same, eventsOf_append, eventsOf_posted]
    exact adds.current
  · rw [log, same, List.countP_append, countP_posted, Nat.add_assoc, adds.counted]
    exact inv.counted

/-- A connection whose loops are gone is whole. -/
theorem whole_of_apart {events : List ClientEvent} (closed : state.mantain.opens = false)
    (apart : state.reader = none ∧ state.writer = none)
    (current : Current state (some handshake) events) : ConnectionEvents handshake events := by
  cases current with
  | opening opens => rw [opens.opens] at closed; cases closed
  | running newly runs =>
      have reads := runs.reads
      have writes := runs.writes
      rw [apart.1] at reads
      rw [apart.2] at writes
      exact whole_of_finished newly reads writes runs.loops

/-- A step that completes a handshake. -/
theorem events_of_handshake (quiet : QuietInv state) (inv : EventsInv trace state)
    (taken : clientMachine.step state label = some after)
    (shakes : label.handshake = some handshake) (pc : state.mantain = .connecting)
    (became : after = { state with
      connections := state.connections + 1
      mantain := .storeToken handshake.token handshake.session }) :
    EventsInv (trace ++ [(state, label)]) after := by
  subst became
  have log : sentLog (trace ++ [(state, label)]) = sentLog trace := by
    rw [sentLog_snoc, posted_of_history taken (List.append_nil state.history).symm]
    exact List.append_nil _
  have grown : handshakes (trace ++ [(state, label)]) = handshakes trace ++ [handshake] := by
    rw [handshakes_snoc, shakes, Option.toList_some]
  refine ⟨?_, ?_, ?_, ?_, ?_, ?_⟩
  · rw [grown, List.length_append, inv.connections]
    rfl
  · rw [log]
    intro posted member
    have bounds := inv.numbered posted member
    exact ⟨bounds.1, Nat.le_succ_of_le bounds.2⟩
  · rw [log]
    exact inv.ordered
  · rw [grown, log]
    intro index other found before
    have bound : index < (handshakes trace).length := by
      rw [inv.connections]
      exact Nat.lt_of_succ_lt_succ before
    rw [List.getElem?_append_left bound] at found
    rcases Nat.lt_or_ge (index + 1) state.connections with earlier | last
    · exact inv.past index other found earlier
    · have final : index + 1 = state.connections := by
        rw [← inv.connections] at last ⊢
        omega
      have current := inv.current
      rw [List.getLast?_eq_getElem?, inv.connections, ← final, Nat.add_sub_cancel, found]
        at current
      exact whole_of_apart (by rw [pc]; rfl) (quiet.apart pc rfl) current
  · rw [grown, log, List.getLast?_concat, eventsOf_other]
    · exact .opening .storeToken
    · intro posted member
      have bound := (inv.numbered posted member).2
      exact Nat.ne_of_lt (Nat.lt_succ_of_le bound)
  · rw [log]
    have counted := inv.counted
    rw [pc] at counted
    exact congrArg Nat.succ counted

/-- A step keeps the invariant of the protocol. -/
theorem events_of_step (quiet : QuietInv state) (flags : FlagsInv state)
    (inv : EventsInv trace state) (taken : clientMachine.step state label = some after) :
    EventsInv (trace ++ [(state, label)]) after := by
  have move := ClientState.move_of_step taken
  rcases handshake_of_move move with ⟨same, silent⟩ | ⟨handshake, shakes, pc, became⟩
  · obtain ⟨more, adds⟩ := adds_of_move quiet flags inv.current move same
    exact events_of_adds inv taken same silent adds
  · exact events_of_handshake quiet inv taken shakes pc became

/-- Every run keeps the invariant of the protocol. -/
theorem events_of_run {autoReconnect : Bool}
    (run : clientMachine.Run (.start autoReconnect) trace state) : EventsInv trace state := by
  refine @Machine.Run.traceInvariant _ _ _ EventsInv _ _ _ run ?_ ?_
  · exact ⟨rfl, by simp, .nil, by simp [handshakes], .idle rfl ⟨rfl, rfl⟩, rfl⟩
  · intro trace before label after prior inv taken
    have reachable : clientMachine.Reachable before := ⟨_, _, ⟨autoReconnect, rfl⟩, prior⟩
    exact events_of_step (quiet_of_reachable reachable) (flags_of_reachable reachable) inv taken

/-- The connection of a handshake is the current one, or one before it. -/
theorem EventsInv.find {index : Nat} (inv : EventsInv trace state)
    (found : (handshakes trace)[index]? = some handshake) :
    index + 1 < state.connections ∧
        ConnectionEvents handshake (eventsOf (index + 1) (sentLog trace)) ∨
      index + 1 = state.connections ∧
        Current state (some handshake) (eventsOf (index + 1) (sentLog trace)) := by
  have bound := (List.getElem?_eq_some_iff.mp found).choose
  rw [inv.connections] at bound
  rcases Nat.lt_or_eq_of_le (Nat.succ_le_of_lt bound) with earlier | last
  · exact .inl ⟨earlier, inv.past index handshake found earlier⟩
  · have current := inv.current
    have final : index + 1 = state.connections := last
    rw [List.getLast?_eq_getElem?, inv.connections, ← final, Nat.add_sub_cancel, found] at current
    exact .inr ⟨final, current⟩

/-- A read loop that has ended without unwinding has finished. -/
theorem finished_of_ended {pc : ClientReaderPc} (place : state.reader = some pc) (ended : pc.ended)
    (whole : state.unwound = false) : pc = .closing .finished := by
  cases pc with
  | closing exit =>
      cases exit with
      | finished => rfl
      | _ => cases ended
  | panicked => rw [ClientState.unwound, place] at whole; cases whole
  | _ => cases ended

/-- A write loop ends in one way only. -/
theorem finished_of_writeEnded {pc : ClientWriterPc} (ended : pc.ended) :
    pc = .closing .finished := by
  cases pc with
  | closing exit =>
      cases exit with
      | finished => rfl
      | _ => cases ended
  | _ => cases ended

/-- Out of the opening, the loops of the connection have been started. -/
theorem Current.running_of_closed {events : List ClientEvent}
    (current : Current state (some handshake) events) (closed : state.mantain.opens = false) :
    ∃ flags sent, ClientFlags.isNewlyHandshaked flags ∧ events = handshake.opening flags ++ sent ∧
      Running state handshake sent := by
  cases current with
  | opening opens => rw [opens.opens] at closed; cases closed
  | running newly runs => exact ⟨_, _, newly, rfl, runs⟩

/-- A read loop that has ended, and not by unwinding, has sent its exit message. -/
theorem Running.read_of_ended {sent : List ClientEvent} (runs : Running state handshake sent)
    (within : state.unwound = false) (ended : ∀ pc ∈ state.reader, pc.ended) :
    ReaderSent handshake (.closing .finished) (sentBy .readLoop sent) := by
  have reads := runs.reads
  rwa [getD_of_finished fun pc there => finished_of_ended there (ended pc there) within] at reads

/-- A write loop that has ended has sent its exit message. -/
theorem Running.written_of_ended {sent : List ClientEvent} (runs : Running state handshake sent)
    (ended : ∀ pc ∈ state.writer, pc.ended) :
    ExitSent ⟨handshake.token⟩ .finished (sentBy .writeLoop sent) := by
  have writes := runs.writes
  rwa [getD_of_finished fun pc there => finished_of_writeEnded (ended pc there)] at writes

/-- While no read loop has unwound, the event protocol holds. -/
theorem protocol_of_events (inv : EventsInv trace state) (within : state.unwound = false) :
    EventProtocol trace state where
  numbered := by
    rw [inv.connections]
    exact inv.numbered
  ordered := inv.ordered
  events := by
    intro index handshake found
    rcases inv.find found with ⟨-, whole⟩ | ⟨-, current⟩
    · exact ⟨[], by rwa [List.append_nil]⟩
    · exact current.completes
  readExit := by
    intro index handshake found ended
    rcases inv.find found with ⟨-, whole⟩ | ⟨last, current⟩
    · exact whole.exits.1
    · obtain ⟨closed, ended⟩ := ended.resolve_left (by omega)
      obtain ⟨flags, sent, -, events, runs⟩ := current.running_of_closed closed
      rw [events, sentBy_opening _ _ (by decide)]
      exact countP_read (runs.read_of_ended within ended)
  writeExit := by
    intro index handshake found ended
    rcases inv.find found with ⟨-, whole⟩ | ⟨last, current⟩
    · exact whole.exits.2
    · obtain ⟨closed, ended⟩ := ended.resolve_left (by omega)
      obtain ⟨flags, sent, -, events, runs⟩ := current.running_of_closed closed
      rw [events, sentBy_opening _ _ (by decide)]
      exact countP_written (runs.written_of_ended ended)
  whole := by
    intro index handshake found readEnded writeEnded
    rcases inv.find found with ⟨-, whole⟩ | ⟨last, current⟩
    · exact whole
    · obtain ⟨closed, readEnded⟩ := readEnded.resolve_left (by omega)
      obtain ⟨-, writeEnded⟩ := writeEnded.resolve_left (by omega)
      obtain ⟨flags, sent, newly, events, runs⟩ := current.running_of_closed closed
      rw [events]
      exact whole_of_finished newly (runs.read_of_ended within readEnded)
        (runs.written_of_ended writeEnded) runs.loops
  counted := by
    rw [inv.connections]
    exact inv.counted

/-- A read loop that has unwound has sent no exit message, and never will. -/
theorem not_protocol_of_unwound (quiet : QuietInv state) (inv : EventsInv trace state)
    (unwinds : state.unwound) : ¬ EventProtocol trace state := by
  intro protocol
  have place : state.reader = some .panicked := by
    unfold ClientState.unwound at unwinds
    split at unwinds
    next place => exact place
    next => cases unwinds
  have current := inv.current
  cases last : (handshakes trace).getLast? with
  | none =>
      rw [last] at current
      cases (current_none current).2.symm.trans place
  | some handshake =>
      rw [last] at current
      have closed := opens_of_attends (attends_of_reader quiet place)
      obtain ⟨flags, sent, -, events, runs⟩ := current.running_of_closed closed
      have positive : 0 < state.connections := by
        rw [← inv.connections]
        exact List.length_pos_of_mem (List.mem_of_getLast? last)
      have index : state.connections - 1 + 1 = state.connections := Nat.sub_add_cancel positive
      rw [List.getLast?_eq_getElem?, inv.connections] at last
      have exits := protocol.readExit (state.connections - 1) handshake last
        (.inr ⟨closed, by simp [place, ClientReaderPc.ended]⟩)
      have reads := runs.reads
      rw [place, Option.getD_some] at reads
      rw [index, events, sentBy_opening _ _ (by decide)] at exits
      generalize sentBy .readLoop sent = read at reads exits
      cases reads with
      | panicked splits => rw [countP_frames splits] at exits; cases exits

/-- The guard is about the turns of the frame loop that unwind. -/
theorem readsWithin_iff {input : TcpInput} (place : state.reader = some (.reading input)) :
    state.readsWithin .read = false ↔
      ∃ cause rest, Client.readFrame input = (.panic cause, rest) := by
  simp only [ClientState.readsWithin, place, Bool.not_eq_false', Bool.and_eq_true,
    decide_eq_true_eq, and_assoc]
  exact (client_panics_iff input).symm

/-- The read loop unwinds exactly at a frame beyond its buffer. -/
theorem unwound_of_read (taken : state.readStep = some after) :
    after.unwound = (state.unwound || !state.readsWithin .read) := by
  have turns : ∀ {input outcome rest}, state.reader = some (.reading input) →
      Client.readFrame input = (outcome, rest) → (∀ cause, outcome ≠ .panic cause) →
      state.readsWithin .read = true := by
    intro input outcome rest place reads calm
    refine eq_true_of_ne_false fun exceeds => ?_
    obtain ⟨cause, rest', panics⟩ := (readsWithin_iff place).mp exceeds
    exact calm cause (congrArg Prod.fst (reads.symm.trans panics))
  cases ClientState.read_move taken with
  | fetched pc reads | ended pc reads =>
      rw [turns pc reads (by simp), ClientState.unwound, ClientState.unwound, pc]
      rfl
  | unwound pc reads =>
      rw [(readsWithin_iff pc).mpr ⟨_, _, reads⟩, Bool.not_false, Bool.or_true]
      rfl
  | named pc | delivered pc | exits pc =>
      simp only [ClientState.unwound, ClientState.readsWithin, pc]
      rfl
  | shut pc | shutUnwound pc =>
      simp only [ClientState.readStep, pc] at taken
      cases taken

/-- A read loop unwinds exactly on a header beyond its buffer, while sockets shut down. -/
theorem unwound_of_step (quiet : QuietInv state)
    (taken : clientMachine.step state label = some after) (shuts : SocketShuts state label) :
    after.unwound = (state.unwound || !state.readsWithin label) := by
  have other : state.readsWithin label → after.reader = state.reader →
      after.unwound = (state.unwound || !state.readsWithin label) := by
    intro within same
    rw [within, Bool.not_true, Bool.or_false, ClientState.unwound, ClientState.unwound, same]
  cases label with
  | read => exact unwound_of_read taken
  | shutSocket succeeded =>
      obtain rfl : succeeded = true := shuts
      simp only [clientMachine, ClientState.step, ClientState.shutSocketStep] at taken
      split at taken
      next pc =>
        cases taken
        simp only [ClientState.unwound, ClientState.readsWithin, pc]
        rfl
      next => cases taken
  | mantain =>
      cases ClientState.mantain_move taken with
      | joined pc reader =>
          simp only [ClientState.unwound, ClientState.readsWithin, reader]
          rfl
      | spawned pc =>
          have apart := quiet.apart pc rfl
          simp only [ClientState.unwound, ClientState.readsWithin, apart.1]
          rfl
      | _ => exact other rfl rfl
  | write => exact other rfl (ClientState.write_move taken).frame.reader
  | forward => exact other rfl (ClientState.forward_move taken).frame.reader
  | _ =>
      refine other rfl ?_
      cases ClientState.move_of_step taken <;> rfl

/-- While sockets shut down, a read loop has unwound exactly where the guard has failed. -/
theorem unwound_iff {autoReconnect : Bool}
    (run : clientMachine.Run (.start autoReconnect) trace state)
    (shuts : Machine.Guarded SocketShuts trace) :
    state.unwound = false ↔ Machine.Guarded ReadsWithin trace := by
  induction run with
  | nil => exact ⟨fun _ => Machine.guarded_nil _, fun _ => rfl⟩
  | @snoc trace before label after prior taken ih =>
      obtain ⟨earlier, last⟩ := Machine.guarded_snoc_iff.mp shuts
      have quiet := quiet_of_reachable ⟨_, _, ⟨autoReconnect, rfl⟩, prior⟩
      rw [Machine.guarded_snoc_iff, ← ih earlier, unwound_of_step quiet taken last,
        Bool.or_eq_false_iff, Bool.not_eq_false']

/-- In every run in which sockets shut down, the event protocol holds as long as no read loop
meets a SETTINGS header beyond its buffer, and not from then on. -/
theorem eventProtocol_iff {autoReconnect : Bool} {trace : List (ClientState × ClientLabel)}
    {state : ClientState} (run : clientMachine.Run (.start autoReconnect) trace state)
    (shuts : Machine.Guarded SocketShuts trace) :
    EventProtocol trace state ↔ Machine.Guarded ReadsWithin trace := by
  have quiet := quiet_of_reachable ⟨_, _, ⟨autoReconnect, rfl⟩, run⟩
  have inv := events_of_run run
  rw [← unwound_iff run shuts]
  constructor
  · intro protocol
    refine Bool.eq_false_iff.mpr fun unwinds => ?_
    exact not_protocol_of_unwound quiet inv unwinds protocol
  · exact protocol_of_events inv

/-- Two connections that end, one after the other. The second time `RECONNECTED` is already set,
which saves the maintenance loop two steps. -/
def reconnectingTwice : List ClientLabel :=
  reconnecting ++ List.replicate 3 .forward ++ reconnecting.dropLast.dropLast

/-- The protocol over two connections of one client. -/
theorem eventProtocol_iff_reconnecting :
    ∃ state trace, clientMachine.Run (.start true) trace state ∧ state.connections = 2 ∧
      EventProtocol trace state := by
  obtain ⟨state, run, connected⟩ := @Machine.run_of_exec_any _ _ clientMachine (.start true)
    reconnectingTwice (fun state => state.connections == 2) (by decide)
  have shuts : Machine.Guarded SocketShuts
      (clientMachine.traceOf (.start true) reconnectingTwice) := by
    unfold Machine.Guarded
    decide
  have within : Machine.Guarded ReadsWithin
      (clientMachine.traceOf (.start true) reconnectingTwice) := by
    unfold Machine.Guarded
    decide
  exact ⟨state, _, run, by simpa using connected, (eventProtocol_iff run shuts).mpr within⟩

/-- A peer that answers the greeting with an empty SETTINGS frame, and goes on with the header of
a SETTINGS frame of 257 bytes. -/
def longSettingsPeer : TcpStream :=
  ⟨Source.ofContent [0, 0, 0, 4, 0, 0, 0, 0, 0, 0, 1, 1, 4, 0, 0, 0, 0, 0] none, 2, []⟩

/-- A connection up to the turn of the frame loop that unwinds. -/
def unwinding : List ClientLabel :=
  List.flatten [[.mantain, .connect (.connected 7 longSettingsPeer)], List.replicate 9 .mantain,
    [.read]]

/-- The read loop has ended, and sent no exit message. -/
theorem unwinding_not_protocol :
    ∃ state trace, clientMachine.Run (.start true) trace state ∧
      Machine.Guarded SocketShuts trace ∧ ¬ EventProtocol trace state := by
  obtain ⟨state, run, unwinds⟩ := @Machine.run_of_exec_any _ _ clientMachine (.start true)
    unwinding ClientState.unwound (by decide)
  have shuts : Machine.Guarded SocketShuts
      (clientMachine.traceOf (.start true) unwinding) := by
    unfold Machine.Guarded
    decide
  have quiet := quiet_of_reachable ⟨_, _, ⟨true, rfl⟩, run⟩
  exact ⟨state, _, run, shuts, not_protocol_of_unwound quiet (events_of_run run) unwinds⟩

end H2l
