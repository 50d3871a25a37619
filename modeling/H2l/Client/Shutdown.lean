import H2l.Client.Effect

/-!
# The exit of the maintenance loop is never announced

The forward loop leaves only on a message that carries `MANTAIN_LOOP_EXITED`, but the
maintenance loop stores that flag after its last send. `quiet_of_reachable` says that no
message ever carries it: no client ever completes its shutdown (`shutdown_never_completes`),
and one whose maintenance loop has left its loop waits for a message that does not come
(`exitHeard_or_strands`).
-/

namespace H2l

open Base

/-- Without `MANTAIN_LOOP_EXITED`. -/
def ClientFlags.Mantaining (flags : ClientFlags) : Prop :=
  FlagSet.contains flags ClientFlags.mantainLoopExited = false

/-- A message that makes the forward loop leave. -/
def Transaction.announcesExit : Transaction → Bool
  | .clientChanged flags _ => FlagSet.contains flags ClientFlags.mantainLoopExited
  | _ => false

namespace ClientExitPc

/-- The flags that the sequence has loaded and not yet used. -/
def held : ClientExitPc → List ClientFlags
  | store loaded => [loaded]
  | reloadToken flags | announce flags _ => [flags]
  | load | reload | finished => []

end ClientExitPc

namespace ClientReaderPc

/-- The flags that the read loop has loaded and not yet used. -/
def held : ClientReaderPc → List ClientFlags
  | closing pc => pc.held
  | _ => []

/-- The loop has returned or unwound. -/
def ended : ClientReaderPc → Bool
  | closing .finished | panicked => true
  | _ => false

end ClientReaderPc

namespace ClientWriterPc

/-- The flags that the write loop has loaded and not yet used. -/
def held : ClientWriterPc → List ClientFlags
  | closing pc => pc.held
  | _ => []

/-- The loop has returned. -/
def ended : ClientWriterPc → Bool
  | closing .finished => true
  | _ => false

end ClientWriterPc

namespace MantainPc

/-- The flags that the maintenance loop has loaded and not yet used. -/
def held : MantainPc → List ClientFlags
  | handshakedStore loaded _ | removeStore loaded | reconnectedStore loaded
  | exitedStore loaded => [loaded]
  | loadToken flags _ | announce flags _ _ => [flags]
  | _ => []

/-- The loops of a connection may be running. -/
def attends : MantainPc → Bool
  | awaiting | panicked => true
  | _ => false

/-- Out of the loop. -/
def left : MantainPc → Bool
  | storeExit | exitedLoad | exitedStore _ | returned => true
  | _ => false

end MantainPc

/-- The message that the forward loop has received and not yet judged. -/
def ClientForwardPc.current : ClientForwardPc → List ClientMessage
  | handling message => [message]
  | _ => []

/-- What the forward loop still has to judge. -/
def ClientState.pending (state : ClientState) : List ClientMessage :=
  state.forward.current ++ state.incoming.items

/-- Once the maintenance loop has returned, the forward loop has left or is going to. -/
structure ExitHeard (state : ClientState) : Prop where
  awake : ¬ (state.mantain = .returned ∧ (∀ pc ∈ state.reader, pc.ended) ∧
    (∀ pc ∈ state.writer, pc.ended) ∧ state.incoming.items = [] ∧ state.forward = .receiving)
  announced : state.mantain = .returned →
    state.forward = .exited ∨ ∃ message ∈ state.pending, message.body.announcesExit

/-- The closure will be called with `TERMINATED` in some continuation, and the thread joined. -/
def ClientTerminates (state : ClientState) : Prop :=
  ∃ final, clientMachine.Leads state final ∧ final.main = .returned ∧
    ∃ token, .clientChanged ClientFlags.terminated token ∈ final.callbacks

/-- The exit of the maintenance loop is heard, and `TERMINATED` is always reachable. -/
structure ShutdownCompletes (state : ClientState) : Prop extends ExitHeard state where
  terminates : ClientTerminates state

/-- The maintenance loop does not leave its loop: it finds `exit_loop` unset, no handshake fails,
and it reconnects when a connection ends. -/
def ClientState.staysInLoop (state : ClientState) : ClientLabel → Bool
  | .mantain =>
      match state.mantain with
      | .head => !state.exitLoop
      | .clearToken => state.autoReconnect
      | _ => true
  | .connect (.connected _ stream) =>
      match Client.handshake stream with
      | (.err _, _) => false
      | _ => true
  | _ => true

/-- The maintenance loop stays in its loop. -/
abbrev StaysInLoop (state : ClientState) (label : ClientLabel) : Prop := state.staysInLoop label

/-- No flags with `MANTAIN_LOOP_EXITED` are in the word, in a task or in a message. -/
structure QuietInv (state : ClientState) : Prop where
  word : state.mantain ≠ .returned → (clientFlags state.word).Mantaining
  mantain : ∀ flags ∈ state.mantain.held, ClientFlags.Mantaining flags
  reader : ∀ pc ∈ state.reader, ∀ flags ∈ pc.held, ClientFlags.Mantaining flags
  writer : ∀ pc ∈ state.writer, ∀ flags ∈ pc.held, ClientFlags.Mantaining flags
  queued : ∀ message ∈ state.incoming.items, message.body.announcesExit = false
  handling : ∀ message ∈ state.forward.current, message.body.announcesExit = false
  /-- Loops run only while the maintenance loop waits for them. -/
  alone : state.mantain.attends = false → state.reader = none ∧ state.writer = none
  forward : state.forward ≠ .exited
  main : state.main ≠ .returned

namespace ClientFlags

variable {left right : ClientFlags}

/-- `MANTAIN_LOOP_EXITED` is the lowest bit. -/
theorem contains_mantainLoopExited (flags : ClientFlags) :
    FlagSet.contains flags mantainLoopExited = flags.bits.getLsbD 0 := by
  have bit : flags.bits &&& 1#32 = (BitVec.ofBool (flags.bits.getLsbD 0)).setWidth 32 :=
    BitVec.and_one_eq_setWidth_ofBool_getLsbD
  simp only [FlagSet.contains, mantainLoopExited]
  change (flags.bits &&& 1#32 == 1#32) = _
  rw [bit]
  cases flags.bits.getLsbD 0 <;> rfl

/-- Flags leave the forward loop running when the lowest bit is clear. -/
theorem mantaining_iff (flags : ClientFlags) :
    flags.Mantaining ↔ flags.bits.getLsbD 0 = false := by
  rw [Mantaining, contains_mantainLoopExited]

/-- Neither of two sets with the bit clear brings it into the other. -/
theorem Mantaining.union (first : left.Mantaining) (second : right.Mantaining) :
    Mantaining (FlagSet.union left right) := by
  rw [mantaining_iff] at first second ⊢
  rw [FlagSet.union_bits, BitVec.getLsbD_or, first, second, Bool.or_false]

/-- Removing flags does not set the bit. -/
theorem Mantaining.remove (first : left.Mantaining) (right : ClientFlags) :
    Mantaining (FlagSet.remove left right) := by
  rw [mantaining_iff] at first ⊢
  rw [FlagSet.remove_bits, BitVec.getLsbD_and, first, Bool.false_and]

/-- Flags that were stored are read back. -/
theorem Mantaining.stored (stored : left.Mantaining) : (clientFlags left.bits).Mantaining := by
  rwa [clientFlags, FlagSet.truncate_self]

end ClientFlags

variable {state after : ClientState}

/-- One step of an exit sequence. -/
theorem mantaining_advance {own : ClientFlags} {pc next : ClientExitPc} {word word' : Word}
    {rawToken : Nat} {message : Option Transaction} (mine : own.Mantaining)
    (clean : (clientFlags word).Mantaining) (held : ∀ flags ∈ pc.held, ClientFlags.Mantaining flags)
    (advances : pc.advance own word rawToken = some (next, word', message)) :
    (clientFlags word').Mantaining ∧ (∀ flags ∈ next.held, ClientFlags.Mantaining flags) ∧
      ∀ body ∈ message, body.announcesExit = false := by
  cases pc with
  | load =>
      cases advances
      exact ⟨clean, by simpa [ClientExitPc.held] using clean, by simp⟩
  | store loaded =>
      cases advances
      have kept := (held loaded List.mem_cons_self).union mine
      exact ⟨kept.stored, by simp [ClientExitPc.held], by simp⟩
  | reload =>
      cases advances
      exact ⟨clean, by simpa [ClientExitPc.held] using clean, by simp⟩
  | reloadToken flags =>
      cases advances
      exact ⟨clean, held, by simp⟩
  | announce flags token =>
      cases advances
      have quiet := held flags List.mem_cons_self
      exact ⟨clean, by simp [ClientExitPc.held], by rintro _ ⟨⟩; exact quiet⟩
  | finished => cases advances

/-- What a loop sends is queued behind quiet messages. -/
theorem queued_of_sends {sent : Option Transaction} {incoming : Channel ClientMessage 4096}
    (queued : ∀ message ∈ state.incoming.items, message.body.announcesExit = false)
    (quiet : ∀ body ∈ sent, body.announcesExit = false) (sends : state.Sends sent incoming) :
    ∀ message ∈ incoming.items, message.body.announcesExit = false := by
  intro message member
  rw [sends, List.mem_append] at member
  rcases member with member | member
  · exact queued message member
  · cases sent with
    | none => cases member
    | some body =>
        obtain rfl := List.mem_singleton.mp member
        exact quiet body rfl

/-- While a loop runs, the maintenance loop attends to it. -/
theorem attends_of_reader (quiet : QuietInv state) {pc : ClientReaderPc}
    (place : state.reader = some pc) : state.mantain.attends := by
  cases attends : state.mantain.attends with
  | false => rw [(quiet.alone attends).1] at place; cases place
  | true => rfl

/-- A write loop runs only while the maintenance loop waits for it. -/
theorem attends_of_writer (quiet : QuietInv state) {pc : ClientWriterPc}
    (place : state.writer = some pc) : state.mantain.attends := by
  cases attends : state.mantain.attends with
  | false => rw [(quiet.alone attends).2] at place; cases place
  | true => rfl

/-- Where the maintenance loop does not attend to loops, none run. -/
theorem QuietInv.apart {place : MantainPc} (inv : QuietInv state) (pc : state.mantain = place)
    (idle : place.attends = false) : state.reader = none ∧ state.writer = none :=
  inv.alone (pc ▸ idle)

/-- While the loops of a connection run, the word has the bit clear. -/
theorem QuietInv.clean (inv : QuietInv state) (attends : state.mantain.attends) :
    (clientFlags state.word).Mantaining :=
  inv.word fun returned => by simp [returned, MantainPc.attends] at attends

/-- A step of a read loop keeps the invariant. -/
theorem quiet_of_reader (inv : QuietInv state) (move : ClientReaderMove state after) :
    QuietInv after := by
  obtain ⟨pc, there⟩ := move.runs
  have attends := attends_of_reader inv there
  have busy : state.mantain.attends = false → after.reader = none ∧ after.writer = none :=
    fun idle => by simp [attends] at idle
  cases move with
  | exits place advances sends =>
      have held := inv.reader _ place
      obtain ⟨clean, next, quiet⟩ :=
        mantaining_advance (by rfl) (inv.clean attends) held advances
      exact { inv with
        word := fun _ => clean
        reader := by rintro _ ⟨⟩; exact next
        queued := queued_of_sends inv.queued quiet sends
        alone := busy }
  | delivered pc sends =>
      exact { inv with
        reader := by rintro _ ⟨⟩; simp [ClientReaderPc.held]
        queued := queued_of_sends inv.queued (by rintro _ ⟨⟩; rfl) sends
        alone := busy }
  | _ => exact { inv with
      reader := by rintro _ ⟨⟩; simp [ClientReaderPc.held, ClientExitPc.held]
      alone := busy }

/-- A write loop that has just received holds no flags. -/
theorem received_held (tr : Transaction) : (ClientWriterPc.received tr).held = [] := by
  rcases ClientWriterPc.received_cases tr with is | is | is <;> rw [is] <;> rfl

/-- A step of a write loop keeps the invariant. -/
theorem quiet_of_writer (inv : QuietInv state) (move : ClientWriterMove state after) :
    QuietInv after := by
  obtain ⟨pc, there⟩ := move.runs
  have attends := attends_of_writer inv there
  have busy : state.mantain.attends = false → after.reader = none ∧ after.writer = none :=
    fun idle => by simp [attends] at idle
  cases move with
  | exits place advances sends =>
      have held := inv.writer _ place
      obtain ⟨clean, next, quiet⟩ :=
        mantaining_advance (by rfl) (inv.clean attends) held advances
      exact { inv with
        word := fun _ => clean
        writer := by rintro _ ⟨⟩; exact next
        queued := queued_of_sends inv.queued quiet sends
        alone := busy }
  | @received message outgoing pc receives =>
      exact { inv with
        writer := by
          rintro _ ⟨⟩
          simp [received_held]
        alone := busy }
  | discarded => exact { inv with alone := busy }
  | _ => exact { inv with
      writer := by rintro _ ⟨⟩; simp [ClientWriterPc.held, ClientExitPc.held]
      alone := busy }

/-- A quiet message does not make the forward loop leave. -/
theorem onClientChanged_quiet {message : ClientMessage}
    (quiet : message.body.announcesExit = false) :
    ClientState.onClientChanged message ≠ .exited ∧
      (ClientState.onClientChanged message).current = [] := by
  obtain ⟨body, connection⟩ := message
  cases body with
  | clientChanged flags token =>
      have stays : FlagSet.contains flags ClientFlags.mantainLoopExited = false := quiet
      simp only [ClientState.onClientChanged, stays, Bool.false_eq_true, if_false]
      split <;> exact ⟨nofun, rfl⟩
  | _ => exact ⟨nofun, rfl⟩

/-- A step of the forward loop keeps the invariant. -/
theorem quiet_of_forward (inv : QuietInv state) (move : ClientForwardMove state after) :
    QuietInv after := by
  cases move with
  | @received message incoming pc receives =>
      have items := Channel.recv_items receives
      exact { inv with
        queued := fun other member =>
          inv.queued other (items ▸ List.mem_cons_of_mem message member)
        handling := by
          intro other member
          obtain rfl := List.mem_singleton.mp member
          exact inv.queued other (items ▸ List.mem_cons_self)
        forward := nofun }
  | @handled message pc =>
      have quiet := inv.handling message (by simp [pc, ClientForwardPc.current])
      obtain ⟨stays, idle⟩ := onClientChanged_quiet quiet
      exact { inv with
        handling := by simp [idle]
        forward := stays }
  | _ => exact { inv with
      handling := fun message member => absurd member List.not_mem_nil
      forward := nofun }

/-- A step of the maintenance loop while no loop of a connection runs. -/
theorem quiet_of_mantain (inv : QuietInv state) {place next : MantainPc}
    (pc : state.mantain = place) (idle : place.attends = false)
    {exitLoop : Bool} {word : Word} {rawToken connections : Nat}
    (clean : next ≠ .returned → (clientFlags word).Mantaining)
    (held : ∀ flags ∈ next.held, ClientFlags.Mantaining flags) :
    QuietInv { state with exitLoop, word, rawToken, connections, mantain := next } :=
  { inv with word := clean, mantain := held, alone := fun _ => inv.apart pc idle }

/-- A message that the maintenance loop sends. -/
theorem quiet_of_sent (inv : QuietInv state) {place next : MantainPc}
    (pc : state.mantain = place) (idle : place.attends = false)
    {body : Transaction} {incoming : Channel ClientMessage 4096}
    (clean : (clientFlags state.word).Mantaining) (quiet : body.announcesExit = false)
    (held : next.held = []) (sends : state.Sends (some body) incoming) :
    QuietInv { state with incoming, mantain := next } :=
  { inv with
    word := fun _ => clean
    mantain := by simp [held]
    queued := queued_of_sends inv.queued (by rintro _ ⟨⟩; exact quiet) sends
    alone := fun _ => inv.apart pc idle }

/-- The loops of a new connection hold no flags. -/
theorem quiet_of_spawn (inv : QuietInv state) (clean : (clientFlags state.word).Mantaining)
    (input : TcpInput) :
    QuietInv { state with
      reader := some (.reading input), writer := some .receiving, mantain := .awaiting } :=
  { inv with
    word := fun _ => clean
    mantain := fun flags member => absurd member List.not_mem_nil
    reader := by rintro _ ⟨⟩; simp [ClientReaderPc.held]
    writer := by rintro _ ⟨⟩; simp [ClientWriterPc.held]
    alone := fun idle => by cases idle }

/-- The end of both loops keeps the invariant. -/
theorem quiet_of_joined (inv : QuietInv state) (clean : (clientFlags state.word).Mantaining) :
    QuietInv { state with reader := none, writer := none, mantain := .removeLoad } :=
  { inv with
    word := fun _ => clean
    mantain := fun flags member => absurd member List.not_mem_nil
    reader := by simp
    writer := by simp
    alone := fun _ => ⟨rfl, rfl⟩ }

/-- The unwinding of the maintenance loop keeps the invariant. -/
theorem quiet_of_unwound (inv : QuietInv state) (clean : (clientFlags state.word).Mantaining) :
    QuietInv { state with mantain := .panicked } :=
  { inv with
    word := fun _ => clean
    mantain := fun flags member => absurd member List.not_mem_nil
    alone := fun idle => by cases idle }

/-- A step of the maintenance loop keeps the invariant. -/
theorem quiet_of_mantainMove (inv : QuietInv state) (move : MantainMove state after) :
    QuietInv after := by
  have clean := inv.word move.runs
  have held : ∀ {place}, state.mantain = place → ∀ flags ∈ place.held, flags.Mantaining :=
    fun pc => pc ▸ inv.mantain
  cases move with
  | tested pc | clearedToken pc | checkedReconnected pc =>
      refine quiet_of_mantain inv pc rfl (fun _ => clean) ?_
      split <;> simp [MantainPc.held]
  | loadedHandshaked pc | loadedFlags pc | loadedClosed pc | loadedReconnected pc
  | loadedExited pc =>
      exact quiet_of_mantain inv pc rfl (fun _ => clean) (by simpa [MantainPc.held] using clean)
  | storedHandshaked pc =>
      have mine : ClientFlags.handshaked.Mantaining := rfl
      have kept := (held pc _ List.mem_cons_self).union mine
      exact quiet_of_mantain inv pc rfl (fun _ => kept.stored) (by simp [MantainPc.held])
  | removedClosed pc =>
      have kept := (held pc _ List.mem_cons_self).remove ClientFlags.readWriteClosed
      exact quiet_of_mantain inv pc rfl (fun _ => kept.stored) (by simp [MantainPc.held])
  | storedReconnected pc =>
      have mine : ClientFlags.reconnected.Mantaining := rfl
      have kept := (held pc _ List.mem_cons_self).union mine
      exact quiet_of_mantain inv pc rfl (fun _ => kept.stored) (by simp [MantainPc.held])
  | storedExited pc =>
      exact quiet_of_mantain inv pc rfl (fun stays => absurd rfl stays) (by simp [MantainPc.held])
  | @announced flags token session incoming pc sends =>
      have quiet : (Transaction.clientChanged flags token).announcesExit = false :=
        held pc flags List.mem_cons_self
      exact quiet_of_sent inv pc rfl clean quiet rfl sends
  | sentSettings pc sends => exact quiet_of_sent inv pc rfl clean rfl rfl sends
  | spawned pc => exact quiet_of_spawn inv clean _
  | joined pc reader writer => exact quiet_of_joined inv clean
  | unwound pc reader => exact quiet_of_unwound inv clean
  | storedToken pc | loadedSettingsToken pc | storedExit pc =>
      exact quiet_of_mantain inv pc rfl (fun _ => clean) (by simp [MantainPc.held])
  | loadedToken pc =>
      exact quiet_of_mantain inv pc rfl (fun _ => clean) (by simpa [MantainPc.held] using held pc)

/-- Every step keeps the invariant. -/
theorem quiet_of_move {label : ClientLabel} (inv : QuietInv state)
    (move : ClientMove state label after) : QuietInv after := by
  have clean : ∀ {place}, state.mantain = place → place ≠ .returned →
      (clientFlags state.word).Mantaining :=
    fun pc stays => inv.word (pc ▸ stays)
  cases move with
  | mantained move => exact quiet_of_mantainMove inv move
  | timedOut pc | failed pc | connected pc | refused pc =>
      exact quiet_of_mantain inv pc rfl (fun _ => clean pc nofun) (by simp [MantainPc.held])
  | unwound pc => exact quiet_of_unwound inv (clean pc nofun)
  | waited pc =>
      refine quiet_of_mantain inv pc rfl (fun _ => clean pc nofun) ?_
      split <;> simp [MantainPc.held]
  | read move | shutSocket move => exact quiet_of_reader inv move
  | wrote move => exact quiet_of_writer inv move
  | forwarded move => exact quiet_of_forward inv move
  | joinedMantain => exact { inv with main := nofun }
  | joinedForward pc exited => exact absurd exited inv.forward
  | shutdown | queued => exact { inv with }
  | dropped => exact inv

/-- The word of a client that was just spawned has the bit clear. -/
theorem mantaining_zero : (clientFlags 0).Mantaining := by
  unfold ClientFlags.Mantaining
  decide

/-- The invariant holds before the first step. -/
theorem quiet_start (autoReconnect : Bool) : QuietInv (.start autoReconnect) where
  word _ := mantaining_zero
  mantain _ member := absurd member List.not_mem_nil
  reader := by simp [ClientState.start]
  writer := by simp [ClientState.start]
  queued _ member := absurd member List.not_mem_nil
  handling _ member := absurd member List.not_mem_nil
  alone _ := ⟨rfl, rfl⟩
  forward := nofun
  main := nofun

/-- The invariant holds in every reachable state. -/
theorem quiet_of_reachable (reachable : clientMachine.Reachable state) : QuietInv state := by
  refine reachable.invariant ?_ fun inv taken => quiet_of_move inv (ClientState.move_of_step taken)
  rintro _ ⟨autoReconnect, rfl⟩
  exact quiet_start autoReconnect

/-- Nothing announces the exit of the maintenance loop, so it must not happen. -/
theorem QuietInv.exitHeard_iff (inv : QuietInv state) :
    ExitHeard state ↔ state.mantain ≠ .returned := by
  constructor
  · intro heard returned
    rcases heard.announced returned with exited | ⟨message, member, announces⟩
    · exact inv.forward exited
    · have quiet : message.body.announcesExit = false := by
        rcases List.mem_append.mp member with member | member
        · exact inv.handling message member
        · exact inv.queued message member
      rw [quiet] at announces
      cases announces
  · intro runs
    exact ⟨fun ⟨returned, _⟩ => runs returned, fun returned => absurd returned runs⟩

/-- The maintenance loop leaves its loop only where the guard fails. -/
theorem loopLeft_of_mantain (move : MantainMove state after) :
    after.mantain.left = (state.mantain.left || !state.staysInLoop .mantain) := by
  unfold ClientState.staysInLoop
  cases move with
  | tested pc =>
      simp only [pc]
      cases state.exitLoop <;> rfl
  | clearedToken pc =>
      simp only [pc]
      cases state.autoReconnect <;> rfl
  | checkedReconnected pc =>
      simp only [pc]
      split <;> rfl
  | _ => simp only [*, MantainPc.left, Bool.not_true, Bool.or_false]

/-- The steps of the guard are the only ones that leave the loop. -/
theorem loopLeft_of_move {label : ClientLabel} (move : ClientMove state label after) :
    after.mantain.left = (state.mantain.left || !state.staysInLoop label) := by
  have other : state.staysInLoop label → after.mantain.left = state.mantain.left →
      after.mantain.left = (state.mantain.left || !state.staysInLoop label) := by
    intro stays same
    rw [same, stays, Bool.not_true, Bool.or_false]
  cases move with
  | mantained move => exact loopLeft_of_mantain move
  | timedOut pc | failed pc => exact other rfl (by rw [pc]; rfl)
  | connected pc shakes | refused pc shakes | unwound pc shakes =>
      simp only [ClientState.staysInLoop, shakes, pc]
      rfl
  | waited pc =>
      refine other rfl ?_
      rw [pc]
      split <;> rfl
  | read move | shutSocket move => exact other rfl (by rw [move.frame.mantain])
  | wrote move => exact other rfl (by rw [move.frame.mantain])
  | forwarded move => exact other rfl (by rw [move.frame.mantain])
  | joinedMantain | joinedForward | shutdown | queued | dropped => exact other rfl rfl

/-- The maintenance loop can still return. -/
def Returns (state : ClientState) : Prop :=
  ∃ further final, clientMachine.Run state further final ∧ final.mantain = .returned

/-- What a step leads to can be reached from before it. -/
theorem returns_of_step (taken : clientMachine.step state .mantain = some after)
    (returns : Returns after) : Returns state := by
  obtain ⟨further, final, run, returned⟩ := returns
  exact ⟨_, final, (Machine.Run.single taken).append run, returned⟩

/-- From its last store the maintenance loop returns. -/
theorem returns_of_exitedStore {loaded : ClientFlags} (pc : state.mantain = .exitedStore loaded) :
    Returns state := by
  have taken : state.mantainStep = some { state with
      word := (FlagSet.union loaded ClientFlags.mantainLoopExited).bits
      mantain := .returned } := by
    simp only [ClientState.mantainStep, pc]
  exact returns_of_step taken ⟨[], _, .nil, rfl⟩

/-- So it does from the load before that. -/
theorem returns_of_exitedLoad (pc : state.mantain = .exitedLoad) : Returns state := by
  have taken : state.mantainStep =
      some { state with mantain := .exitedStore (clientFlags state.word) } := by
    simp only [ClientState.mantainStep, pc]
  exact returns_of_step taken (returns_of_exitedStore rfl)

/-- So it does as soon as it has left its loop. -/
theorem returns_of_storeExit (pc : state.mantain = .storeExit) : Returns state := by
  have taken : state.mantainStep =
      some { state with exitLoop := true, mantain := .exitedLoad } := by
    simp only [ClientState.mantainStep, pc]
  exact returns_of_step taken (returns_of_exitedLoad rfl)

/-- Nothing holds up the maintenance loop once it is out of its loop. -/
theorem returns_of_left (left : state.mantain.left) : Returns state := by
  cases pc : state.mantain <;> rw [pc] at left
  case storeExit => exact returns_of_storeExit pc
  case exitedLoad => exact returns_of_exitedLoad pc
  case exitedStore loaded => exact returns_of_exitedStore pc
  case returned => exact ⟨[], state, .nil, pc⟩
  all_goals cases left

/-- A run has left the loop exactly from the first step that fails the guard. -/
theorem guarded_or_left {start : ClientState} {trace : List (ClientState × ClientLabel)}
    (run : clientMachine.Run start trace state) (within : start.mantain.left = false) :
    Machine.Guarded StaysInLoop trace ∧ state.mantain.left = false ∨
      ¬ Machine.Guarded StaysInLoop trace ∧ state.mantain.left = true := by
  refine @Machine.Run.guarded_or _ _ clientMachine StaysInLoop
    (fun state => state.mantain.left = false) (fun state => state.mantain.left) _ _ _ run within
    ?_ ?_ ?_
  · intro before label after within stays taken
    have leaves := loopLeft_of_move (ClientState.move_of_step taken)
    rw [leaves, within, stays]
    rfl
  · intro before label after within unguarded taken
    have leaves := loopLeft_of_move (ClientState.move_of_step taken)
    rw [leaves, Bool.eq_false_iff.mpr unguarded, Bool.not_false, Bool.or_true]
  · intro before label after left taken
    have leaves := loopLeft_of_move (ClientState.move_of_step taken)
    rw [leaves, left, Bool.true_or]

/-- In every run the exit of the maintenance loop is heard while it has stayed in its loop; once it
has left, it can go on to return, and its exit is not heard. -/
theorem exitHeard_or_strands {autoReconnect : Bool} {trace : List (ClientState × ClientLabel)}
    (run : clientMachine.Run (.start autoReconnect) trace state) :
    (Machine.Guarded StaysInLoop trace → ExitHeard state) ∧
    (¬ Machine.Guarded StaysInLoop trace →
      ∃ further final, clientMachine.Run state further final ∧ ¬ ExitHeard final) := by
  have quiet : ∀ {further final}, clientMachine.Run state further final → QuietInv final :=
    fun onward => quiet_of_reachable ⟨_, _, ⟨autoReconnect, rfl⟩, run.append onward⟩
  rcases guarded_or_left run rfl with ⟨guarded, within⟩ | ⟨unguarded, left⟩
  · refine ⟨fun _ => (quiet .nil).exitHeard_iff.mpr fun returned => ?_,
      fun leaves => absurd guarded leaves⟩
    rw [returned] at within
    cases within
  · refine ⟨fun guarded => absurd guarded unguarded, fun _ => ?_⟩
    obtain ⟨further, final, onward, returned⟩ := returns_of_left left
    exact ⟨further, final, onward, fun heard => (quiet onward).exitHeard_iff.mp heard returned⟩

/-- In no state of any run can the shutdown of a client still complete: the forward loop never
leaves, and the thread that waits for it never returns. -/
theorem shutdown_never_completes {autoReconnect : Bool} {trace : List (ClientState × ClientLabel)}
    {state : ClientState} (run : clientMachine.Run (.start autoReconnect) trace state) :
    ¬ ShutdownCompletes state := by
  intro completes
  obtain ⟨final, ⟨further, onward⟩, returned, -⟩ := completes.terminates
  exact (quiet_of_reachable ⟨_, _, ⟨autoReconnect, rfl⟩, run.append onward⟩).main returned

/-- A peer that answers the greeting with an empty SETTINGS frame and closes. -/
def shortPeer : TcpStream := ⟨Source.ofContent [0, 0, 0, 4, 0, 0, 0, 0, 0] none, 2, []⟩

/-- A connection that ends, up to the next test of `exit_loop`. -/
def reconnecting : List ClientLabel :=
  .mantain :: .connect (.connected 7 shortPeer) ::
    (List.replicate 9 ClientLabel.mantain ++ .read :: .shutSocket true ::
      (List.replicate 5 ClientLabel.read ++ List.replicate 12 ClientLabel.forward ++
        List.replicate 7 (ClientLabel.write true) ++ List.replicate 7 ClientLabel.mantain))

/-- `shutdown` before the first test of `exit_loop`. -/
def shutdownFirst : List ClientLabel := .shutdown :: List.replicate 4 ClientLabel.mantain

/-- `shutdown` after a connection, up to the return of the maintenance loop. -/
def shutdownLater : List ClientLabel :=
  reconnecting ++ .shutdown :: List.replicate 4 ClientLabel.mantain

/-- The maintenance loop has returned, and the forward loop waits on an empty channel. -/
def ClientState.stranded (state : ClientState) : Bool :=
  match state.mantain with
  | .returned => state.reader.isNone && state.writer.isNone && state.incoming.items.isEmpty &&
      decide (state.forward = .receiving)
  | _ => false

/-- A client with a connection is shut down, its maintenance loop leaves, and TERMINATED never
comes. -/
theorem shutdownLater_never_completes :
    ∃ state trace, clientMachine.Run (.start true) trace state ∧ state.connections = 1 ∧
      state.mantain.left ∧ ¬ ShutdownCompletes state := by
  obtain ⟨state, run, checked⟩ := @Machine.run_of_exec_any _ _ clientMachine (.start true)
    shutdownLater (fun state => state.connections == 1 && state.mantain.left) (by decide)
  rw [Bool.and_eq_true, beq_iff_eq] at checked
  exact ⟨state, _, run, checked.1, checked.2, shutdown_never_completes run⟩

/-- A client that is shut down at once does not complete its shutdown either. -/
theorem shutdownFirst_not_completes :
    ∃ state trace, clientMachine.Run (.start true) trace state ∧ ¬ ShutdownCompletes state := by
  obtain ⟨state, run, stranded⟩ := @Machine.run_of_exec_any _ _ clientMachine (.start true)
    shutdownFirst ClientState.stranded (by decide)
  refine ⟨state, _, run, fun completes => completes.awake ?_⟩
  unfold ClientState.stranded at stranded
  split at stranded
  next returned =>
    simp only [Bool.and_eq_true, Option.isNone_iff_eq_none, List.isEmpty_iff, decide_eq_true_eq]
      at stranded
    obtain ⟨⟨⟨reader, writer⟩, items⟩, receiving⟩ := stranded
    exact ⟨returned, by simp [reader], by simp [writer], items, receiving⟩
  next => cases stranded

end H2l
