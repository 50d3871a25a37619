import H2l.Base.Machine
import H2l.Link.Read

/-!
# The exit sequences of a link

When a loop of a link ends it adds its flag to the shared word with a load and a
store, loads the word again and sends what it found. `detachedOnce_iff` says for
which interleavings of the two sequences the link is detached exactly once.
-/

namespace H2l

open Base

/-- The two loops of a link. -/
inductive Side where
  | reader
  | writer
deriving DecidableEq, Repr

namespace Side

/-- The loop at the other half of the socket. -/
def other : Side → Side
  | reader => writer
  | writer => reader

/-- The flag that a loop adds when it ends. -/
def closed : Side → LinkFlags
  | reader => .readClosed
  | writer => .writeClosed

/-- The other of the other loop is the loop itself. -/
@[simp] theorem other_other (side : Side) : side.other.other = side := by
  cases side <;> rfl

/-- There are two loops. -/
theorem eq_or_other (side this : Side) : side = this ∨ side.other = this := by
  cases side <;> cases this <;> simp [other]

end Side

/-- Where an exit sequence stands. -/
inductive ExitPc where
  /-- About to load the word in `add_flags`. -/
  | load
  /-- About to store the loaded flags with its own. -/
  | store (loaded : LinkFlags)
  /-- About to load the word for the message. -/
  | reload
  /-- About to send the flags it found. -/
  | announce (flags : LinkFlags)
  | finished
deriving DecidableEq

namespace ExitPc

/-- The store of `add_flags` is done. -/
def stored : ExitPc → Bool
  | load | store _ => false
  | _ => true

/-- Between the load and the store of `add_flags`. -/
def storing : ExitPc → Bool
  | store _ => true
  | _ => false

/-- One atomic step: where the sequence stands next, the word it leaves, and the flags of the
message it sends. -/
def advance (side : Side) (word : Word) : ExitPc → Option (ExitPc × Word × Option LinkFlags)
  | load => some (store (Link.flags word), word, none)
  | store loaded => some (reload, (FlagSet.union loaded side.closed).bits, none)
  | reload => some (announce (Link.flags word), word, none)
  | announce flags => some (finished, word, some flags)
  | finished => none

end ExitPc

/-- What forward_loop does with the flags of a `LinkChanged` message. -/
inductive LinkArm where
  /-- Pass the message on to the link's write loop. -/
  | notify
  /-- Remove the link and call back `DETACHED`. -/
  | detach
  | ignore
deriving DecidableEq, Repr

/-- The match on the flags; only the two exact values have an arm. -/
def linkChangedArm (flags : LinkFlags) : LinkArm :=
  if flags = .readClosed then .notify
  else if flags = .readWriteClosed then .detach
  else .ignore

/-- Both exit sequences, the word they share and the flags of the messages they sent. -/
structure ExitState where
  word : Word
  reader : ExitPc
  writer : ExitPc
  sent : List LinkFlags
deriving DecidableEq

namespace ExitState

/-- Where the exit sequence of a side stands. -/
def pc (state : ExitState) : Side → ExitPc
  | .reader => state.reader
  | .writer => state.writer

/-- Move the exit sequence of one side. -/
def setPc (state : ExitState) (side : Side) (pc : ExitPc) : ExitState :=
  match side with
  | .reader => { state with reader := pc }
  | .writer => { state with writer := pc }

/-- The side that moves stands where it moved to. -/
@[simp] theorem pc_setPc_self (state : ExitState) (side : Side) (pc : ExitPc) :
    (state.setPc side pc).pc side = pc := by
  cases side <;> rfl

/-- The other side stands where it stood. -/
@[simp] theorem pc_setPc_other (state : ExitState) (side : Side) (pc : ExitPc) :
    (state.setPc side pc).pc side.other = state.pc side.other := by
  cases side <;> rfl

@[simp] theorem pc_setPc_of_other (state : ExitState) (side : Side) (pc : ExitPc) :
    (state.setPc side.other pc).pc side = state.pc side := by
  cases side <;> rfl

@[simp] theorem pc_with_word (state : ExitState) (side : Side) (word : Word) :
    { state with word }.pc side = state.pc side := by
  cases side <;> rfl

@[simp] theorem pc_with_sent (state : ExitState) (side : Side) (sent : List LinkFlags) :
    { state with sent }.pc side = state.pc side := by
  cases side <;> rfl

@[simp] theorem word_setPc (state : ExitState) (side : Side) (pc : ExitPc) :
    (state.setPc side pc).word = state.word := by
  cases side <;> rfl

@[simp] theorem sent_setPc (state : ExitState) (side : Side) (pc : ExitPc) :
    (state.setPc side pc).sent = state.sent := by
  cases side <;> rfl

/-- Both loops at the start of their sequences, with nothing stored. -/
def start : ExitState := ⟨LinkFlags.none.bits, .load, .load, []⟩

/-- The next atomic step of one loop. -/
def step (state : ExitState) (side : Side) : Option ExitState :=
  ((state.pc side).advance side state.word).map fun (pc, word, message) =>
    { state with word, sent := state.sent ++ message.toList }.setPc side pc

end ExitState

/-- Every interleaving of the two exit sequences. -/
def exitMachine : Machine ExitState Side where
  initial state := state = .start
  step := ExitState.step

/-- The word holds both flags, and one message, which carries both, made the forward loop detach the
link. -/
structure DetachedOnce (state : ExitState) : Prop where
  word : state.word = LinkFlags.readWriteClosed.bits
  detach : (state.sent.filter fun flags => linkChangedArm flags = .detach) = [.readWriteClosed]

/-- A loop loads only while the other is not between its load and its store, and stores
only while the other is not between its store and its second load. -/
def ExitAlone (state : ExitState) (side : Side) : Prop :=
  (state.pc side = .load → (state.pc side.other).storing = false) ∧
    ((state.pc side).storing → state.pc side.other ≠ .reload)

instance (state : ExitState) (side : Side) : Decidable (ExitAlone state side) :=
  inferInstanceAs (Decidable (_ ∧ _))

section Steps

variable {state after : ExitState} {side : Side}

/-- What the first load leads to. -/
theorem after_load (pc : state.pc side = .load) (taken : exitMachine.step state side = some after) :
    after = state.setPc side (.store (Link.flags state.word)) := by
  simp only [exitMachine, ExitState.step, pc, ExitPc.advance] at taken
  simpa using taken.symm

/-- What the store leads to: the other side's flag may be lost. -/
theorem after_store {loaded : LinkFlags} (pc : state.pc side = .store loaded)
    (taken : exitMachine.step state side = some after) :
    after = { state with word := (FlagSet.union loaded side.closed).bits }.setPc side .reload := by
  simp only [exitMachine, ExitState.step, pc, ExitPc.advance] at taken
  simpa using taken.symm

/-- What the second load leads to. -/
theorem after_reload (pc : state.pc side = .reload)
    (taken : exitMachine.step state side = some after) :
    after = state.setPc side (.announce (Link.flags state.word)) := by
  simp only [exitMachine, ExitState.step, pc, ExitPc.advance] at taken
  simpa using taken.symm

/-- What the send of the message leads to. -/
theorem after_announce {flags : LinkFlags} (pc : state.pc side = .announce flags)
    (taken : exitMachine.step state side = some after) :
    after = { state with sent := state.sent ++ [flags] }.setPc side .finished := by
  simp only [exitMachine, ExitState.step, pc, ExitPc.advance] at taken
  simpa using taken.symm

/-- A sequence that has finished takes no step. -/
theorem not_after_finished (pc : state.pc side = .finished) :
    exitMachine.step state side ≠ some after := by
  simp [exitMachine, ExitState.step, pc, ExitPc.advance]

end Steps

section Word

variable (side : Side)

@[simp] theorem flags_none : Link.flags LinkFlags.none.bits = .none := by decide

/-- The word with the flag of one loop decodes to it. -/
@[simp] theorem flags_closed : Link.flags side.closed.bits = side.closed := by
  cases side <;> decide

@[simp] theorem flags_readWriteClosed :
    Link.flags LinkFlags.readWriteClosed.bits = LinkFlags.readWriteClosed := by decide

/-- From the start of the word a store leaves the loop's own flag. -/
@[simp] theorem none_or_closed : LinkFlags.none.bits ||| side.closed.bits = side.closed.bits := by
  cases side <;> decide

/-- Both flags together are READ_WRITE_CLOSED. -/
@[simp] theorem closed_or_other :
    side.closed.bits ||| side.other.closed.bits = LinkFlags.readWriteClosed.bits := by
  cases side <;> decide

/-- One flag is not both. -/
@[simp] theorem closed_ne_readWriteClosed : side.closed ≠ LinkFlags.readWriteClosed := by
  cases side <;> decide

/-- One flag is not both, in the word either. -/
@[simp] theorem closed_bits_ne : side.closed.bits ≠ LinkFlags.readWriteClosed.bits := by
  cases side <;> decide

/-- No flag is not both. -/
theorem none_bits_ne : LinkFlags.none.bits ≠ LinkFlags.readWriteClosed.bits := by decide

end Word

/-- How far two sequences have come that did not disturb each other; `side` is the one
that is ahead. -/
inductive ExitPhase (state : ExitState) : Prop where
  /-- Nothing is stored. -/
  | idle (side : Side) (word : state.word = LinkFlags.none.bits)
      (ahead : state.pc side = .load ∨ state.pc side = .store .none)
      (behind : state.pc side.other = .load) (sent : state.sent.count .readWriteClosed = 0)
  /-- One flag is stored. -/
  | first (side : Side) (word : state.word = side.closed.bits)
      (ahead : state.pc side = .reload ∨ state.pc side = .announce side.closed ∨
        state.pc side = .finished)
      (behind : state.pc side.other = .load ∨ state.pc side.other = .store side.closed)
      (sent : state.sent.count .readWriteClosed = 0)
  /-- Both flags are stored, the second after the first was loaded again. -/
  | second (side : Side) (word : state.word = LinkFlags.readWriteClosed.bits)
      (ahead : state.pc side = .announce side.closed ∨ state.pc side = .finished)
      (behind : (state.pc side.other = .reload ∨ state.pc side.other = .announce .readWriteClosed) ∧
          state.sent.count .readWriteClosed = 0 ∨
        state.pc side.other = .finished ∧ state.sent.count .readWriteClosed = 1)

/-- Steps that do not disturb the other sequence keep the phases. -/
theorem exitPhase_kept {state after : ExitState} {this : Side} (phase : ExitPhase state)
    (alone : ExitAlone state this) (taken : exitMachine.step state this = some after) :
    ExitPhase after := by
  cases phase with
  | idle side word ahead behind sent =>
      rcases side.eq_or_other this with rfl | rfl
      · rcases ahead with pc | pc
        · obtain rfl := after_load pc taken
          exact .idle side (by simpa) (.inr (by simp [word])) (by simpa) (by simpa)
        · obtain rfl := after_store pc taken
          exact .first side (by simp) (.inl (by simp)) (.inl (by simpa)) (by simpa)
      · rcases ahead with pc | pc
        · obtain rfl := after_load behind taken
          exact .idle side.other (by simpa) (.inr (by simp [word])) (by simpa) (by simpa)
        · have calm := alone.1 behind
          simp [pc, ExitPc.storing] at calm
  | first side word ahead behind sent =>
      rcases side.eq_or_other this with rfl | rfl
      · rcases ahead with pc | pc | pc
        · obtain rfl := after_reload pc taken
          exact .first side (by simpa) (.inr (.inl (by simp [word]))) (by simpa) (by simpa)
        · obtain rfl := after_announce pc taken
          exact .first side (by simpa) (.inr (.inr (by simp))) (by simpa) (by simpa)
        · exact absurd taken (not_after_finished pc)
      · rcases behind with pc | pc
        · obtain rfl := after_load pc taken
          exact .first side (by simpa) (by simpa) (.inr (by simp [word])) (by simpa)
        · have loadedAgain := alone.2 (by simp [pc, ExitPc.storing])
          obtain rfl := after_store pc taken
          refine .second side (by simp) ?_ (.inl ⟨.inl (by simp), by simpa⟩)
          rcases ahead with ahead | ahead
          · exact absurd (by simpa using ahead) loadedAgain
          · simpa using ahead
  | second side word ahead behind =>
      rcases side.eq_or_other this with rfl | rfl
      · rcases ahead with pc | pc
        · obtain rfl := after_announce pc taken
          exact .second side (by simpa) (.inr (by simp)) (by simpa [List.count_append])
        · exact absurd taken (not_after_finished pc)
      · rcases behind with ⟨pc | pc, sent⟩ | ⟨pc, sent⟩
        · obtain rfl := after_reload pc taken
          exact .second side (by simpa) (by simpa) (.inl ⟨.inr (by simp [word]), by simpa⟩)
        · obtain rfl := after_announce pc taken
          exact .second side (by simpa) (by simpa) (.inr ⟨by simp, by simp [sent]⟩)
        · exact absurd taken (not_after_finished pc)

/-- A store was overwritten, or will be: the word never holds both flags. -/
structure ExitLost (state : ExitState) : Prop where
  word : state.word ≠ LinkFlags.readWriteClosed.bits
  stale : ∀ side, state.pc side ≠ .load ∧ ∀ loaded, state.pc side = .store loaded → loaded = .none

/-- A message that detaches the link is still to be sent by a sequence that finds both flags. -/
def ExitPc.pending (pc : ExitPc) : Nat :=
  if pc = .reload ∨ pc = .announce .readWriteClosed then 1 else 0

/-- Both second loads come after both stores, so both messages detach the link. -/
structure ExitTwice (state : ExitState) : Prop where
  word : state.word = LinkFlags.readWriteClosed.bits
  stored : ∀ side, (state.pc side).stored
  twice : ∀ side, state.sent.count .readWriteClosed +
    ((state.pc side).pending + (state.pc side.other).pending) = 2

/-- A flag that was lost stays lost. -/
theorem exitLost_kept {state after : ExitState} {this : Side} (lost : ExitLost state)
    (taken : exitMachine.step state this = some after) : ExitLost after := by
  obtain ⟨word, stale⟩ := lost
  cases pc : state.pc this with
  | load => exact absurd pc (stale this).1
  | store loaded =>
      obtain rfl := (stale this).2 loaded pc
      obtain rfl := after_store pc taken
      refine ⟨by simp, fun side => ?_⟩
      rcases this.eq_or_other side with rfl | rfl
      · simp
      · simpa using stale this.other
  | reload =>
      obtain rfl := after_reload pc taken
      refine ⟨by simpa using word, fun side => ?_⟩
      rcases this.eq_or_other side with rfl | rfl
      · simp
      · simpa using stale this.other
  | announce flags =>
      obtain rfl := after_announce pc taken
      refine ⟨by simpa using word, fun side => ?_⟩
      rcases this.eq_or_other side with rfl | rfl
      · simp
      · simpa using stale this.other
  | finished => exact absurd taken (not_after_finished pc)

/-- A sequence that has stored moves on without changing how often the link is detached. -/
theorem exitTwice_of_moved {state after : ExitState} (this : Side) (twice : ExitTwice state)
    (word : after.word = state.word) (stored : (after.pc this).stored)
    (other : after.pc this.other = state.pc this.other)
    (moved : after.sent.count .readWriteClosed + (after.pc this).pending =
      state.sent.count .readWriteClosed + (state.pc this).pending) : ExitTwice after where
  word := word.trans twice.word
  stored side := by
    rcases this.eq_or_other side with rfl | rfl
    · exact stored
    · rw [other]
      exact twice.stored _
  twice side := by
    have before := twice.twice this
    rcases this.eq_or_other side with rfl | rfl
    · rw [other]
      omega
    · rw [Side.other_other, other]
      omega

/-- A message that comes twice still does so after a step. -/
theorem exitTwice_kept {state after : ExitState} {this : Side} (twice : ExitTwice state)
    (taken : exitMachine.step state this = some after) : ExitTwice after := by
  have stored := twice.stored this
  cases pc : state.pc this with
  | load => simp [pc, ExitPc.stored] at stored
  | store loaded => simp [pc, ExitPc.stored] at stored
  | reload =>
      obtain rfl := after_reload pc taken
      refine exitTwice_of_moved this twice (by simp) (by simp [ExitPc.stored]) (by simp) ?_
      simp [pc, ExitPc.pending, twice.word]
  | announce flags =>
      obtain rfl := after_announce pc taken
      refine exitTwice_of_moved this twice (by simp) (by simp [ExitPc.stored]) (by simp) ?_
      by_cases both : flags = .readWriteClosed <;>
        simp [pc, ExitPc.pending, List.count_append, both]
  | finished => exact absurd taken (not_after_finished pc)

/-- A sequence past its store can disturb nobody. -/
theorem exitAlone_of_stored {state : ExitState} {this : Side} (stored : (state.pc this).stored) :
    ExitAlone state this := by
  constructor
  · intro pc
    simp [pc, ExitPc.stored] at stored
  · intro storing
    cases pc : state.pc this <;> simp [pc, ExitPc.stored, ExitPc.storing] at stored storing

/-- The first step that disturbs the other sequence loses a store or detaches twice. -/
theorem exit_spoiled {state after : ExitState} {this : Side} (phase : ExitPhase state)
    (disturbs : ¬ ExitAlone state this) (taken : exitMachine.step state this = some after) :
    ExitLost after ∨ ExitTwice after := by
  cases phase with
  | idle side word ahead behind sent =>
      rcases side.eq_or_other this with rfl | rfl
      · refine absurd ⟨fun _ => ?_, fun _ => ?_⟩ disturbs <;> simp [behind, ExitPc.storing]
      · obtain rfl := after_load behind taken
        refine .inl ⟨by simp [word, none_bits_ne], fun there => ?_⟩
        rcases side.eq_or_other there with rfl | rfl
        · rcases ahead with pc | pc
          · refine absurd ⟨fun _ => ?_, fun storing => ?_⟩ disturbs
            · simp [pc, ExitPc.storing]
            · simp [behind, ExitPc.storing] at storing
          · simp [pc]
        · simp [word]
  | first side word ahead behind sent =>
      rcases side.eq_or_other this with rfl | rfl
      · refine absurd (exitAlone_of_stored ?_) disturbs
        rcases ahead with pc | pc | pc <;> simp [pc, ExitPc.stored]
      · rcases behind with pc | pc
        · refine absurd ⟨fun _ => ?_, fun storing => ?_⟩ disturbs
          · rcases ahead with pc | pc | pc <;> simp [pc, ExitPc.storing]
          · simp [pc, ExitPc.storing] at storing
        · have loadingAgain : state.pc side = .reload := by
            refine Classical.byContradiction fun settled => disturbs ⟨?_, fun _ => ?_⟩
            · simp [pc]
            · simpa using settled
          obtain rfl := after_store pc taken
          refine .inr ⟨by simp, fun there => ?_, fun there => ?_⟩
          · rcases side.eq_or_other there with rfl | rfl <;> simp [loadingAgain, ExitPc.stored]
          · rcases side.eq_or_other there with rfl | rfl <;>
              simp [loadingAgain, ExitPc.pending, sent]
  | second side word ahead behind =>
      refine absurd (exitAlone_of_stored ?_) disturbs
      rcases side.eq_or_other this with rfl | rfl
      · rcases ahead with pc | pc <;> simp [pc, ExitPc.stored]
      · rcases behind with ⟨pc | pc, -⟩ | ⟨pc, -⟩ <;> simp [pc, ExitPc.stored]

/-- The messages that detach the link are those that carry both flags. -/
theorem detach_iff (flags : LinkFlags) :
    linkChangedArm flags = .detach ↔ flags = .readWriteClosed := by
  unfold linkChangedArm
  by_cases read : flags = .readClosed
  · subst read
    decide
  · rw [if_neg read]
    by_cases both : flags = .readWriteClosed <;> simp [both]

/-- The messages that detach a link are those with READ_WRITE_CLOSED. -/
theorem detach_filter (sent : List LinkFlags) :
    (sent.filter fun flags => linkChangedArm flags = .detach) =
      List.replicate (sent.count .readWriteClosed) .readWriteClosed := by
  rw [← List.filter_beq]
  apply List.filter_congr
  intro flags _
  simp only [detach_iff]
  rfl

/-- One message carries both flags. -/
theorem DetachedOnce.message {state : ExitState} (once : DetachedOnce state) :
    state.sent.count .readWriteClosed = 1 := by
  have replicated := congrArg List.length ((detach_filter state.sent).symm.trans once.detach)
  simpa using replicated

/-- When both sequences have ended, the link was detached exactly once if and only if no
step of one disturbed the other. -/
theorem detachedOnce_iff {state : ExitState} {trace : List (ExitState × Side)}
    (run : exitMachine.Run .start trace state) (ended : ∀ side, state.pc side = .finished) :
    DetachedOnce state ↔ Machine.Guarded ExitAlone trace := by
  have start : ExitPhase .start := .idle .reader rfl (.inl rfl) rfl rfl
  have stays : ∀ {before side after}, ExitLost before ∨ ExitTwice before →
      exitMachine.step before side = some after → ExitLost after ∨ ExitTwice after := by
    rintro before side after (lost | twice) taken
    · exact .inl (exitLost_kept lost taken)
    · exact .inr (exitTwice_kept twice taken)
  rcases run.guarded_or start exitPhase_kept exit_spoiled stays with
    ⟨guarded, phase⟩ | ⟨disturbed, lost | twice⟩
  · refine iff_of_true ?_ guarded
    cases phase with
    | idle side _ _ behind => simp [ended] at behind
    | first side _ _ behind => simp [ended] at behind
    | second side word _ behind =>
        have once : state.sent.count .readWriteClosed = 1 := by simpa [ended] using behind
        exact ⟨word, by rw [detach_filter, once]; rfl⟩
  · exact iff_of_false (fun detached => lost.word detached.word) disturbed
  · refine iff_of_false (fun detached => ?_) disturbed
    have twice := twice.twice .reader
    simp [ended, ExitPc.pending, detached.message] at twice

/-- One sequence after the other. -/
def oneByOne : List Side :=
  [.reader, .reader, .reader, .reader, .writer, .writer, .writer, .writer]

/-- One loop finishes before the other begins, and the link is detached once. -/
theorem oneByOne_detachedOnce :
    DetachedOnce ⟨0x3, .finished, .finished, [.readClosed, .readWriteClosed]⟩ := by
  have executed : exitMachine.exec .start oneByOne =
      some ⟨0x3, .finished, .finished, [.readClosed, .readWriteClosed]⟩ := by decide
  have guarded : Machine.Guarded ExitAlone (exitMachine.traceOf .start oneByOne) := by
    unfold Machine.Guarded
    decide
  exact (detachedOnce_iff (Machine.run_of_exec executed) fun side => by cases side <;> rfl).mpr
    guarded

/-- The reader's store is overwritten by a writer that loaded before it. -/
def lostUpdate : List Side :=
  [.reader, .writer, .reader, .writer, .reader, .reader, .writer, .writer]

/-- The reader loads its message after the writer has stored. -/
def doubleDetach : List Side :=
  [.reader, .reader, .writer, .writer, .reader, .reader, .writer, .writer]

/-- The two sequences can lose the message, and they can send it twice. -/
theorem exits_not_detachedOnce :
    (∃ state trace, exitMachine.Run .start trace state ∧ (∀ side, state.pc side = .finished) ∧
      ¬ DetachedOnce state ∧ state.sent.count .readWriteClosed = 0) ∧
    (∃ state trace, exitMachine.Run .start trace state ∧ (∀ side, state.pc side = .finished) ∧
      ¬ DetachedOnce state ∧ state.sent.count .readWriteClosed = 2) := by
  constructor
  · have executed : exitMachine.exec .start lostUpdate =
        some ⟨0x2, .finished, .finished, [.writeClosed, .writeClosed]⟩ := by decide
    refine ⟨_, _, Machine.run_of_exec executed, fun side => by cases side <;> rfl,
      fun detached => ?_, by decide⟩
    exact absurd detached.message (by decide)
  · have executed : exitMachine.exec .start doubleDetach =
        some ⟨0x3, .finished, .finished, [.readWriteClosed, .readWriteClosed]⟩ := by decide
    refine ⟨_, _, Machine.run_of_exec executed, fun side => by cases side <;> rfl,
      fun detached => ?_, by decide⟩
    exact absurd detached.message (by decide)

end H2l
