import H2l.Client.Shutdown

/-!
# The flags of a connection

The two loops of a connection load and store the flags word without excluding each
other, so a store can undo the other's. `flags_of_reachable` says what survives: one of
the closed flags is set once either loop has stored, that of a loop as long as the other
has not begun to close, and nothing of an earlier connection.
-/

namespace H2l

open Base

namespace ClientFlags

/-- What the word can be before a handshake. -/
def Settled (flags : ClientFlags) : Prop := flags = .empty ∨ flags.isNewlyHandshaked

/-- What the word can be while the loops of a connection run. -/
def Live (flags : ClientFlags) : Prop :=
  ClientFlags.isNewlyHandshaked (FlagSet.remove flags readWriteClosed)

/-- One of the loops has closed. -/
def Closed (flags : ClientFlags) : Prop := FlagSet.intersects flags readWriteClosed

end ClientFlags

namespace ClientExitPc

/-- The flag of the loop has been stored. -/
def stored : ClientExitPc → Bool
  | load | store _ => false
  | _ => true

/-- The flags of the exit message, from when they are loaded until it is sent. -/
def told : ClientExitPc → List ClientFlags
  | reloadToken flags | announce flags _ => [flags]
  | _ => []

end ClientExitPc

/-- Where the exit sequence of a read loop stands; at its start until the loop gets there. -/
def ClientReaderPc.exit : ClientReaderPc → ClientExitPc
  | closing pc => pc
  | _ => .load

/-- Where the exit sequence of a write loop stands; at its start until the loop gets there. -/
def ClientWriterPc.exit : ClientWriterPc → ClientExitPc
  | closing pc => pc
  | _ => .load

/-- What the word, and the flags that the maintenance loop has loaded, can be where it stands. -/
def MantainPc.Flagged (word : ClientFlags) : MantainPc → Prop
  | head | connecting | delaying | storeToken _ _ | handshakedLoad _ => word.Settled
  | handshakedStore loaded _ => loaded.Settled
  | loadFlags _ | loadSettingsToken _ | sendSettings _ _ | spawn _ | clearToken
  | loadReconnected | reconnectedLoad => word.isNewlyHandshaked
  | loadToken flags _ | announce flags _ _ => word.isNewlyHandshaked ∧ flags.isNewlyHandshaked
  | removeLoad => word.Live
  | removeStore loaded => loaded.Live
  | reconnectedStore loaded => loaded.isNewlyHandshaked
  | awaiting | storeExit | exitedLoad | exitedStore _ | returned | panicked => True

/-- What one loop makes of the word, with the other loop beside it. -/
structure ExitFlags (word flag : ClientFlags) (pc other : ClientExitPc) : Prop where
  held : ∀ flags ∈ pc.held, ClientFlags.Live flags
  /-- A flag that its loop has not stored is nowhere. -/
  absent : pc.stored = false → ∀ flags ∈ word :: other.held, FlagSet.contains flags flag = false
  /-- Only the other loop can undo the store. -/
  present : pc.stored → other = .load → FlagSet.contains word flag
  shown : other = .load → ∀ flags ∈ pc.told, FlagSet.contains flags flag
  /-- A store that undoes the other's sets a closed flag itself. -/
  closed : pc.stored → word.Closed
  told : ∀ flags ∈ pc.told, ClientFlags.Closed flags

/-- What the two loops of a connection make of the word. -/
structure LoopFlags (word : ClientFlags) (reader writer : ClientExitPc) : Prop where
  live : word.Live
  read : ExitFlags word ClientFlags.readClosed reader writer
  write : ExitFlags word ClientFlags.writeClosed writer reader

/-- The flags of a client, wherever its tasks stand. -/
structure FlagsInv (state : ClientState) : Prop where
  mantain : state.mantain.Flagged (clientFlags state.word)
  paired : state.reader.isSome = state.writer.isSome
  loops : ∀ reader ∈ state.reader, ∀ writer ∈ state.writer,
    LoopFlags (clientFlags state.word) reader.exit writer.exit

namespace ClientFlags

variable {flags : ClientFlags}

/-- HANDSHAKED alone or with RECONNECTED, and nothing else. -/
theorem isNewlyHandshaked_iff (flags : ClientFlags) :
    flags.isNewlyHandshaked ↔
      flags = handshaked ∨ flags = FlagSet.union handshaked reconnected := by
  simp [isNewlyHandshaked]

/-- Marking a settled word with `HANDSHAKED` makes it newly handshaked. -/
theorem Settled.handshaked (settled : flags.Settled) :
    isNewlyHandshaked (FlagSet.union flags handshaked) := by
  rcases settled with rfl | newly
  · decide
  · rcases (isNewlyHandshaked_iff _).mp newly with rfl | rfl <;> decide

/-- Newly handshaked flags stay so under `RECONNECTED`. -/
theorem newly_reconnected (newly : flags.isNewlyHandshaked) :
    isNewlyHandshaked (FlagSet.union flags reconnected) := by
  rcases (isNewlyHandshaked_iff _).mp newly with rfl | rfl <;> decide

/-- The word of a new connection is one that its loops can meet. -/
theorem newly_live (newly : flags.isNewlyHandshaked) : flags.Live := by
  rcases (isNewlyHandshaked_iff _).mp newly with rfl | rfl <;> unfold Live <;> decide

/-- The flags of a new connection say of no loop that it has ended. -/
theorem newly_not_closed (newly : flags.isNewlyHandshaked) : ¬ flags.Closed := by
  rcases (isNewlyHandshaked_iff _).mp newly with rfl | rfl <;> unfold Closed <;> decide

/-- With a closed flag, flags are not newly handshaked. -/
theorem Closed.not_newly (closed : flags.Closed) : flags.isNewlyHandshaked = false :=
  Bool.eq_false_iff.mpr fun newly => newly_not_closed newly closed

/-- A new connection has an open read half. -/
theorem newly_not_read (newly : flags.isNewlyHandshaked) :
    FlagSet.contains flags readClosed = false := by
  rcases (isNewlyHandshaked_iff _).mp newly with rfl | rfl <;> decide

/-- A new connection has an open write half. -/
theorem newly_not_write (newly : flags.isNewlyHandshaked) :
    FlagSet.contains flags writeClosed = false := by
  rcases (isNewlyHandshaked_iff _).mp newly with rfl | rfl <;> decide

/-- The two flags that say which loop has closed. -/
inductive OfLoop : ClientFlags → Prop where
  | read : OfLoop readClosed
  | write : OfLoop writeClosed

/-- Either loop may add its own flag while the loops run. -/
theorem OfLoop.live {flag : ClientFlags} (own : flag.OfLoop) (live : flags.Live) :
    Live (FlagSet.union flags flag) := by
  have among : FlagSet.contains readWriteClosed flag := by cases own <;> decide
  rwa [Live, FlagSet.remove_union_of_contains flags among]

/-- A loop that adds its own flag makes the word tell of an end. -/
theorem OfLoop.closed {flag : ClientFlags} (own : flag.OfLoop) (flags : ClientFlags) :
    Closed (FlagSet.union flags flag) :=
  FlagSet.intersects_union_right flags (by cases own <;> decide)

end ClientFlags

/-- What was stored is loaded. -/
theorem clientFlags_bits (flags : ClientFlags) : clientFlags flags.bits = flags :=
  FlagSet.truncate_self flags

section Exits

variable {word flag added : ClientFlags} {bits bits' : Word} {rawToken : Nat}
  {pc other next : ClientExitPc} {message : Option Transaction}

/-- Before either loop closes, the word of a fresh connection. -/
theorem exitFlags_spawned (absent : FlagSet.contains word flag = false) :
    ExitFlags word flag .load .load where
  held := by simp [ClientExitPc.held]
  absent _ := List.forall_mem_singleton.mpr absent
  present stored := by cases stored
  shown := by simp [ClientExitPc.told]
  closed stored := by cases stored
  told := by simp [ClientExitPc.told]

/-- A step of the exit sequence keeps the word live. -/
theorem live_of_advance (own : flag.OfLoop) (live : (clientFlags bits).Live)
    (held : ∀ flags ∈ pc.held, ClientFlags.Live flags)
    (advances : pc.advance flag bits rawToken = some (next, bits', message)) :
    (clientFlags bits').Live := by
  cases pc with
  | store loaded =>
      cases advances
      rw [clientFlags_bits]
      exact own.live (held loaded List.mem_cons_self)
  | finished => cases advances
  | _ => cases advances; exact live

/-- An exit sequence does not go back to its start. -/
theorem ne_load_of_advance
    (advances : pc.advance flag bits rawToken = some (next, bits', message)) : next ≠ .load := by
  cases pc <;> cases advances <;> simp

/-- A step of the exit sequence that the facts are about. -/
theorem ExitFlags.own (own : flag.OfLoop) (live : (clientFlags bits).Live)
    (facts : ExitFlags (clientFlags bits) flag pc other)
    (advances : pc.advance flag bits rawToken = some (next, bits', message)) :
    ExitFlags (clientFlags bits') flag next other := by
  cases pc with
  | load =>
      cases advances
      exact { facts with
        held := List.forall_mem_singleton.mpr live
        present := fun stored => by cases stored
        closed := fun stored => by cases stored }
  | store loaded =>
      cases advances
      rw [clientFlags_bits]
      exact {
        held := by simp [ClientExitPc.held]
        absent := fun fresh => by cases fresh
        present := fun _ _ => FlagSet.contains_union_right loaded flag
        shown := by simp [ClientExitPc.told]
        closed := fun _ => own.closed loaded
        told := by simp [ClientExitPc.told] }
  | reload =>
      cases advances
      exact { facts with
        held := List.forall_mem_singleton.mpr live
        absent := fun fresh => by cases fresh
        shown := fun alone => List.forall_mem_singleton.mpr (facts.present rfl alone)
        told := List.forall_mem_singleton.mpr (facts.closed rfl) }
  | reloadToken flags =>
      cases advances
      exact { facts with }
  | announce flags token =>
      cases advances
      exact { facts with
        held := by simp [ClientExitPc.held]
        shown := by simp [ClientExitPc.told]
        told := by simp [ClientExitPc.told] }
  | finished => cases advances

/-- A step of the other loop's exit sequence. -/
theorem ExitFlags.beside (adds : added.OfLoop) (apart : added.bits &&& flag.bits = 0)
    (facts : ExitFlags (clientFlags bits) flag pc other)
    (advances : other.advance added bits rawToken = some (next, bits', message)) :
    ExitFlags (clientFlags bits') flag pc next := by
  have begun := ne_load_of_advance advances
  have absent : pc.stored = false →
      ∀ flags ∈ clientFlags bits' :: next.held, FlagSet.contains flags flag = false := by
    intro fresh
    have word := facts.absent fresh _ List.mem_cons_self
    cases other with
    | load | reload | announce =>
        cases advances
        simpa [ClientExitPc.held] using word
    | store loaded =>
        cases advances
        have held := facts.absent fresh loaded (by simp [ClientExitPc.held])
        rw [clientFlags_bits]
        simpa [ClientExitPc.held, FlagSet.contains_union_of_disjoint loaded apart] using held
    | reloadToken flags =>
        cases advances
        exact facts.absent fresh
    | finished => cases advances
  have closed : pc.stored → (clientFlags bits').Closed := by
    intro stored
    cases other with
    | store loaded =>
        cases advances
        rw [clientFlags_bits]
        exact adds.closed loaded
    | finished => cases advances
    | _ => cases advances; exact facts.closed stored
  exact { facts with
    absent
    present := fun _ same => absurd same begun
    shown := fun same => absurd same begun
    closed }

end Exits

section Loops

variable {word : ClientFlags} {bits bits' : Word} {rawToken : Nat}
  {reader writer next : ClientExitPc} {message : Option Transaction}

/-- Loops that were just spawned have not touched the word. -/
theorem loopFlags_spawned (newly : word.isNewlyHandshaked) : LoopFlags word .load .load where
  live := ClientFlags.newly_live newly
  read := exitFlags_spawned (ClientFlags.newly_not_read newly)
  write := exitFlags_spawned (ClientFlags.newly_not_write newly)

/-- One step of the read loop's exit sequence keeps the word and what both loops hold of it. -/
theorem LoopFlags.reader_advance (loops : LoopFlags (clientFlags bits) reader writer)
    (advances : reader.advance ClientFlags.readClosed bits rawToken = some (next, bits', message)) :
    LoopFlags (clientFlags bits') next writer where
  live := live_of_advance .read loops.live loops.read.held advances
  read := loops.read.own .read loops.live advances
  write := loops.write.beside .read (by decide) advances

/-- The same step of the write loop. -/
theorem LoopFlags.writer_advance (loops : LoopFlags (clientFlags bits) reader writer)
    (advances : writer.advance ClientFlags.writeClosed bits rawToken =
      some (next, bits', message)) :
    LoopFlags (clientFlags bits') reader next where
  live := live_of_advance .write loops.live loops.write.held advances
  read := loops.read.beside .write (by decide) advances
  write := loops.write.own .write loops.live advances

end Loops

variable {state after : ClientState}

/-- While no loops run only the maintenance loop has to do with the word. -/
theorem flags_of_apart (apart : after.reader = none ∧ after.writer = none)
    (flagged : after.mantain.Flagged (clientFlags after.word)) : FlagsInv after where
  mantain := flagged
  paired := by rw [apart.1, apart.2]; rfl
  loops := by simp [apart.1]

/-- A step that leaves the word, the maintenance loop and the exit sequences alone. -/
theorem FlagsInv.same (inv : FlagsInv state) (word : after.word = state.word)
    (mantain : after.mantain = state.mantain)
    (reader : after.reader.map ClientReaderPc.exit = state.reader.map ClientReaderPc.exit)
    (writer : after.writer.map ClientWriterPc.exit = state.writer.map ClientWriterPc.exit) :
    FlagsInv after where
  mantain := by rw [word, mantain]; exact inv.mantain
  paired := by
    have same := congrArg Option.isSome reader
    have same' := congrArg Option.isSome writer
    simp only [Option.isSome_map] at same same'
    rw [same, same', inv.paired]
  loops := by
    intro pc there pc' there'
    have found := Option.mem_map_of_mem ClientReaderPc.exit there
    have found' := Option.mem_map_of_mem ClientWriterPc.exit there'
    rw [reader] at found
    rw [writer] at found'
    obtain ⟨before, there, same⟩ := Option.map_eq_some_iff.mp found
    obtain ⟨before', there', same'⟩ := Option.map_eq_some_iff.mp found'
    rw [word, ← same, ← same']
    exact inv.loops before there before' there'

/-- While loops run the maintenance loop does not touch the word. -/
theorem flagged_of_attends {pc : MantainPc} (attends : pc.attends) (word : ClientFlags) :
    pc.Flagged word := by
  cases pc <;> trivial

/-- The maintenance loop keeps the invariant of the word. -/
theorem flags_of_mantain (quiet : QuietInv state) (inv : FlagsInv state)
    (move : MantainMove state after) : FlagsInv after := by
  have flagged : ∀ {place}, state.mantain = place → place.Flagged (clientFlags state.word) :=
    fun pc => pc ▸ inv.mantain
  cases move with
  | joined pc reader writer =>
      have loops := inv.loops _ reader _ writer
      exact flags_of_apart ⟨rfl, rfl⟩ loops.live
  | unwound pc => exact { inv with mantain := trivial }
  | spawned pc =>
      refine ⟨trivial, rfl, ?_⟩
      rintro _ ⟨⟩ _ ⟨⟩
      exact loopFlags_spawned (flagged pc)
  | tested pc =>
      have phase := flagged pc
      refine flags_of_apart (quiet.apart pc rfl) ?_
      cases state.exitLoop
      · exact phase
      · trivial
  | storedHandshaked pc =>
      have phase := flagged pc
      refine flags_of_apart (quiet.apart pc rfl) ?_
      simp only [MantainPc.Flagged, clientFlags_bits]
      exact ClientFlags.Settled.handshaked phase
  | loadedFlags pc => exact flags_of_apart (quiet.apart pc rfl) ⟨flagged pc, flagged pc⟩
  | announced pc =>
      have phase := flagged pc
      exact flags_of_apart (quiet.apart pc rfl) phase.1
  | removedClosed pc =>
      have phase := flagged pc
      refine flags_of_apart (quiet.apart pc rfl) ?_
      simp only [MantainPc.Flagged, clientFlags_bits]
      exact phase
  | clearedToken pc =>
      have phase := flagged pc
      refine flags_of_apart (quiet.apart pc rfl) ?_
      cases state.autoReconnect
      · trivial
      · exact phase
  | checkedReconnected pc =>
      have phase := flagged pc
      refine flags_of_apart (quiet.apart pc rfl) ?_
      cases FlagSet.contains (clientFlags state.word) ClientFlags.reconnected
      · exact phase
      · exact .inr phase
  | storedReconnected pc =>
      have phase := flagged pc
      refine flags_of_apart (quiet.apart pc rfl) ?_
      simp only [MantainPc.Flagged, clientFlags_bits]
      exact .inr (ClientFlags.newly_reconnected phase)
  | storedToken pc | loadedHandshaked pc | loadedToken pc | loadedSettingsToken pc
  | sentSettings pc | loadedClosed pc | loadedReconnected pc | storedExit pc | loadedExited pc
  | storedExited pc =>
      have phase := flagged pc
      exact flags_of_apart (quiet.apart pc rfl) phase

/-- The read loop keeps the invariant of the word. -/
theorem flags_of_reader (quiet : QuietInv state) (inv : FlagsInv state)
    (move : ClientReaderMove state after) : FlagsInv after := by
  cases move with
  | fetched pc | ended pc | unwound pc | named pc | shut pc | shutUnwound pc =>
      exact inv.same rfl rfl (by rw [pc]; rfl) rfl
  | delivered pc => exact inv.same rfl rfl (by rw [pc]; rfl) rfl
  | exits place advances =>
      refine ⟨flagged_of_attends (attends_of_reader quiet place) _, ?_, ?_⟩
      · rw [← inv.paired, place]
        rfl
      · rintro _ ⟨⟩ writer other
        exact (inv.loops _ place writer other).reader_advance advances

/-- A write loop that has just received has not begun its exit sequence. -/
theorem exit_received (tr : Transaction) : (ClientWriterPc.received tr).exit = .load := by
  rcases ClientWriterPc.received_cases tr with is | is | is <;> rw [is] <;> rfl

/-- The write loop keeps the invariant of the word. -/
theorem flags_of_writer (quiet : QuietInv state) (inv : FlagsInv state)
    (move : ClientWriterMove state after) : FlagsInv after := by
  cases move with
  | received pc =>
      refine inv.same rfl rfl rfl ?_
      rw [pc, Option.map_some, exit_received]
      rfl
  | wrote pc | failed pc | flushed pc => exact inv.same rfl rfl rfl (by rw [pc]; rfl)
  | discarded => exact inv.same rfl rfl rfl rfl
  | exits place advances =>
      refine ⟨flagged_of_attends (attends_of_writer quiet place) _, ?_, ?_⟩
      · rw [inv.paired, place]
        rfl
      · rintro reader other _ ⟨⟩
        exact (inv.loops reader other _ place).writer_advance advances

/-- Every step keeps the invariant. -/
theorem flags_of_move {label : ClientLabel} (quiet : QuietInv state) (inv : FlagsInv state)
    (move : ClientMove state label after) : FlagsInv after := by
  have flagged : ∀ {place}, state.mantain = place → place.Flagged (clientFlags state.word) :=
    fun pc => pc ▸ inv.mantain
  cases move with
  | mantained move => exact flags_of_mantain quiet inv move
  | timedOut pc | failed pc | connected pc =>
      have phase := flagged pc
      exact flags_of_apart (quiet.apart pc rfl) phase
  | refused pc | unwound pc => exact flags_of_apart (quiet.apart pc rfl) trivial
  | @waited elapsed pc =>
      have phase := flagged pc
      refine flags_of_apart (quiet.apart pc rfl) ?_
      cases state.exitLoop || elapsed <;> exact phase
  | read move | shutSocket move => exact flags_of_reader quiet inv move
  | wrote move => exact flags_of_writer quiet inv move
  | forwarded move =>
      have kept := move.frame
      exact inv.same kept.word kept.mantain (by rw [kept.reader]) (by rw [kept.writer])
  | joinedMantain | joinedForward | shutdown | queued | dropped => exact inv.same rfl rfl rfl rfl

/-- The word of a client that was just spawned is settled. -/
theorem settled_zero : (clientFlags 0).Settled := .inl (by decide)

/-- The invariant holds before the first step. -/
theorem flags_start (autoReconnect : Bool) : FlagsInv (.start autoReconnect) :=
  flags_of_apart ⟨rfl, rfl⟩ settled_zero

/-- The invariant holds in every reachable state. -/
theorem flags_of_reachable (reachable : clientMachine.Reachable state) : FlagsInv state := by
  refine (@Machine.Reachable.invariant _ _ _ (fun state => QuietInv state ∧ FlagsInv state) _
    reachable ?_ ?_).2
  · rintro _ ⟨autoReconnect, rfl⟩
    exact ⟨quiet_start autoReconnect, flags_start autoReconnect⟩
  · rintro before label after ⟨quiet, inv⟩ taken
    have move := ClientState.move_of_step taken
    exact ⟨quiet_of_move quiet move, flags_of_move quiet inv move⟩

end H2l
