import H2l.Client.Reconnect

/-!
# What the flags tell of a reconnection

The flags word outlives the connections, and the loops of a connection may undo each
other's stores to it. `client_marks` says what is told all the same: every message of a
client about itself carries `HANDSHAKED`, and `RECONNECTED` exactly from the second
connection on; and a client that does not reconnect has one connection at most.
-/

namespace H2l

open Base

namespace ClientFlags

/-- What every message of a connection tells, but for the loops that have closed. -/
def ofConnection (connection : Nat) : ClientFlags :=
  if connection ≤ 1 then handshaked else FlagSet.union handshaked reconnected

/-- What the connections so far leave in the word. -/
def afterConnections (connections : Nat) : ClientFlags :=
  if connections = 0 then .empty else FlagSet.union handshaked reconnected

/-- The flags are those of a connection, but for the loops that have closed. -/
def Tells (connection : Nat) (flags : ClientFlags) : Prop :=
  FlagSet.remove flags readWriteClosed = ofConnection connection

end ClientFlags

/-- What the word, and the flags that the maintenance loop has loaded, are where it stands. -/
def MantainPc.Marked (connections : Nat) (word : ClientFlags) : MantainPc → Prop
  | head | connecting | delaying => word = ClientFlags.afterConnections connections
  | storeToken _ _ | handshakedLoad _ =>
      0 < connections ∧ word = ClientFlags.afterConnections (connections - 1)
  | handshakedStore loaded _ =>
      0 < connections ∧ loaded = ClientFlags.afterConnections (connections - 1)
  | loadFlags _ | loadSettingsToken _ | sendSettings _ _ | spawn _ | clearToken
  | loadReconnected | reconnectedLoad =>
      0 < connections ∧ word = ClientFlags.ofConnection connections
  | loadToken flags _ | announce flags _ _ => 0 < connections ∧
      word = ClientFlags.ofConnection connections ∧ flags = ClientFlags.ofConnection connections
  | awaiting => 0 < connections
  | removeLoad => 0 < connections ∧ word.Tells connections
  | removeStore loaded => 0 < connections ∧ loaded.Tells connections
  | reconnectedStore loaded => 0 < connections ∧ loaded = ClientFlags.ofConnection connections
  | storeExit | exitedLoad | exitedStore _ | returned | panicked => True

/-- The maintenance loop may come to connect without a handshake in between. -/
def MantainPc.connects : MantainPc → Bool
  | head | connecting | delaying | loadReconnected | reconnectedLoad | reconnectedStore _ => true
  | _ => false

/-- The flags of a client, connection by connection. -/
structure MarksInv (state : ClientState) : Prop where
  mantain : state.mantain.Marked state.connections (clientFlags state.word)
  read : ∀ pc ∈ state.reader, ∀ flags ∈ clientFlags state.word :: pc.held,
    ClientFlags.Tells state.connections flags
  write : ∀ pc ∈ state.writer, ∀ flags ∈ clientFlags state.word :: pc.held,
    ClientFlags.Tells state.connections flags
  once : state.autoReconnect = false → state.connections ≤ 1
  fresh : state.autoReconnect = false → state.mantain.connects → state.connections = 0

/-- What a client tells of itself. -/
structure ClientMarks (trace : List (ClientState × ClientLabel)) (state : ClientState) : Prop where
  told : ∀ posted ∈ sentLog trace, ∀ flags token,
    posted.message.body = .clientChanged flags token →
      FlagSet.remove flags ClientFlags.readWriteClosed =
        ClientFlags.ofConnection posted.message.connection
  once : state.autoReconnect = false → state.connections ≤ 1

namespace ClientFlags

variable {connection connections : Nat} {flags flag : ClientFlags}

/-- The first connection, or a later one. -/
theorem ofConnection_cases (connection : Nat) :
    connection ≤ 1 ∧ ofConnection connection = handshaked ∨
    1 < connection ∧ ofConnection connection = FlagSet.union handshaked reconnected := by
  unfold ofConnection
  split
  next first => exact .inl ⟨first, rfl⟩
  next later => exact .inr ⟨Nat.lt_of_not_le later, rfl⟩

/-- The flags of a connection tell whether it is the first. -/
theorem tells_ofConnection (connection : Nat) : (ofConnection connection).Tells connection := by
  rcases ofConnection_cases connection with ⟨-, is⟩ | ⟨-, is⟩ <;> rw [Tells, is] <;> decide

/-- A loop that has closed changes nothing else. -/
theorem Tells.union (tells : flags.Tells connection) (own : flag.OfLoop) :
    Tells connection (FlagSet.union flags flag) := by
  have among : FlagSet.contains readWriteClosed flag := by cases own <;> decide
  rwa [Tells, FlagSet.remove_union_of_contains flags among]

/-- `HANDSHAKED` turns what the earlier connections left into what the next one tells. -/
theorem union_handshaked (earlier : Nat) :
    FlagSet.union (afterConnections earlier) handshaked = ofConnection (earlier + 1) := by
  cases earlier with
  | zero => decide
  | succ earlier =>
      have later : ¬ earlier + 1 + 1 ≤ 1 := by omega
      rw [afterConnections, ofConnection, if_neg (Nat.succ_ne_zero _), if_neg later]
      decide

/-- `RECONNECTED` is stored after the first connection. -/
theorem union_reconnected (some : 0 < connections) :
    FlagSet.union (ofConnection connections) reconnected = afterConnections connections := by
  rw [afterConnections, if_neg (Nat.ne_of_gt some)]
  rcases ofConnection_cases connections with ⟨-, is⟩ | ⟨-, is⟩
  · rw [is]
  · rw [is]
    decide

/-- Where `RECONNECTED` is there already, it need not be stored. -/
theorem afterConnections_of_contains
    (has : FlagSet.contains (ofConnection connections) reconnected) :
    ofConnection connections = afterConnections connections := by
  rcases ofConnection_cases connections with ⟨-, is⟩ | ⟨later, is⟩
  · rw [is] at has
    cases has
  · rw [is, afterConnections, if_neg (by omega)]

end ClientFlags

variable {state after : ClientState} {label : ClientLabel}
  {trace : List (ClientState × ClientLabel)}

/-- A step of an exit sequence keeps to the flags of the connection. -/
theorem tells_of_advance {own : ClientFlags} {connection : Nat} {bits bits' : Word} {rawToken : Nat}
    {pc next : ClientExitPc} {message : Option Transaction} (flag : own.OfLoop)
    (tells : ∀ flags ∈ clientFlags bits :: pc.held, ClientFlags.Tells connection flags)
    (advances : pc.advance own bits rawToken = some (next, bits', message)) :
    ∀ flags ∈ clientFlags bits' :: next.held, ClientFlags.Tells connection flags := by
  have word := tells _ List.mem_cons_self
  cases pc with
  | load | reload =>
      cases advances
      simpa [ClientExitPc.held] using word
  | store loaded =>
      cases advances
      have stored := (tells loaded (by simp [ClientExitPc.held])).union flag
      rw [clientFlags_bits]
      simpa [ClientExitPc.held] using stored
  | reloadToken flags =>
      cases advances
      exact tells
  | announce flags token =>
      cases advances
      simpa [ClientExitPc.held] using word
  | finished => cases advances

/-- Where no loop of a connection runs, only the maintenance loop has to do with the flags. -/
theorem marks_of_apart (apart : after.reader = none ∧ after.writer = none)
    (marked : after.mantain.Marked after.connections (clientFlags after.word))
    (once : after.autoReconnect = false → after.connections ≤ 1)
    (fresh : after.autoReconnect = false → after.mantain.connects → after.connections = 0) :
    MarksInv after where
  mantain := marked
  read := by simp [apart.1]
  write := by simp [apart.2]
  once := once
  fresh := fresh

/-- A step that leaves the flags, the maintenance loop and what the loops hold. -/
theorem MarksInv.same (inv : MarksInv state) (word : after.word = state.word)
    (mantain : after.mantain = state.mantain) (connections : after.connections = state.connections)
    (autoReconnect : after.autoReconnect = state.autoReconnect)
    (read : ∀ pc ∈ after.reader, ∀ flags ∈ clientFlags state.word :: pc.held,
      ClientFlags.Tells state.connections flags)
    (write : ∀ pc ∈ after.writer, ∀ flags ∈ clientFlags state.word :: pc.held,
      ClientFlags.Tells state.connections flags) : MarksInv after where
  mantain := by rw [mantain, connections, word]; exact inv.mantain
  read := by rw [connections, word]; exact read
  write := by rw [connections, word]; exact write
  once := by rw [autoReconnect, connections]; exact inv.once
  fresh := by rw [autoReconnect, mantain, connections]; exact inv.fresh

/-- The maintenance loop keeps the marks of the connection. -/
theorem marks_of_mantain (quiet : QuietInv state) (inv : MarksInv state)
    (move : MantainMove state after) : MarksInv after := by
  have marked : ∀ {place}, state.mantain = place →
      place.Marked state.connections (clientFlags state.word) := fun pc => pc ▸ inv.mantain
  have fresh : ∀ {place}, state.mantain = place → place.connects →
      state.autoReconnect = false → state.connections = 0 :=
    fun pc connects without => inv.fresh without (pc ▸ connects)
  cases move with
  | joined pc reader writer =>
      have word := inv.read _ reader _ List.mem_cons_self
      have some : 0 < state.connections := marked pc
      exact marks_of_apart ⟨rfl, rfl⟩ ⟨some, word⟩ inv.once nofun
  | unwound pc => exact { inv with mantain := trivial, fresh := nofun }
  | spawned pc =>
      obtain ⟨some, word⟩ := marked pc
      have tells : ∀ flags ∈ [clientFlags state.word],
          ClientFlags.Tells state.connections flags := by
        refine List.forall_mem_singleton.mpr ?_
        rw [word]
        exact ClientFlags.tells_ofConnection _
      exact ⟨some, by rintro _ ⟨⟩; exact tells, by rintro _ ⟨⟩; exact tells, inv.once, nofun⟩
  | tested pc =>
      have word := marked pc
      refine marks_of_apart (quiet.apart pc rfl) ?_ inv.once fun without _ => fresh pc rfl without
      cases state.exitLoop
      · exact word
      · trivial
  | storedHandshaked pc =>
      obtain ⟨some, loaded⟩ := marked pc
      refine marks_of_apart (quiet.apart pc rfl) ⟨some, ?_⟩ inv.once nofun
      rw [clientFlags_bits, loaded, ClientFlags.union_handshaked, Nat.sub_add_cancel some]
  | loadedFlags pc =>
      obtain ⟨some, word⟩ := marked pc
      exact marks_of_apart (quiet.apart pc rfl) ⟨some, word, word⟩ inv.once nofun
  | announced pc =>
      obtain ⟨some, word, -⟩ := marked pc
      exact marks_of_apart (quiet.apart pc rfl) ⟨some, word⟩ inv.once nofun
  | removedClosed pc =>
      obtain ⟨some, loaded⟩ := marked pc
      refine marks_of_apart (quiet.apart pc rfl) ⟨some, ?_⟩ inv.once nofun
      rw [clientFlags_bits]
      exact loaded
  | clearedToken pc =>
      have word := marked pc
      refine marks_of_apart (quiet.apart pc rfl) ?_ inv.once ?_
      · cases state.autoReconnect
        · trivial
        · exact word
      · intro without connects
        simp only at without
        rw [without] at connects
        cases connects
  | checkedReconnected pc =>
      obtain ⟨some, word⟩ := marked pc
      refine marks_of_apart (quiet.apart pc rfl) ?_ inv.once fun without _ => fresh pc rfl without
      rw [word]
      split
      next has => exact ClientFlags.afterConnections_of_contains has
      next => exact ⟨some, rfl⟩
  | loadedReconnected pc =>
      obtain ⟨some, word⟩ := marked pc
      exact marks_of_apart (quiet.apart pc rfl) ⟨some, word⟩ inv.once
        fun without _ => fresh pc rfl without
  | storedReconnected pc =>
      obtain ⟨some, loaded⟩ := marked pc
      refine marks_of_apart (quiet.apart pc rfl) ?_ inv.once fun without _ => fresh pc rfl without
      rw [MantainPc.Marked, clientFlags_bits, loaded, ClientFlags.union_reconnected some]
  | storedToken pc | loadedHandshaked pc | loadedToken pc | loadedSettingsToken pc
  | sentSettings pc | loadedClosed pc | storedExit pc | loadedExited pc | storedExited pc =>
      have phase := marked pc
      exact marks_of_apart (quiet.apart pc rfl) phase inv.once nofun

/-- While loops run, the maintenance loop does not look at the word. -/
theorem marked_of_attends {pc : MantainPc} {connections : Nat} {word : ClientFlags}
    (attends : pc.attends) (marked : pc.Marked connections word) (word' : ClientFlags) :
    pc.Marked connections word' := by
  cases pc with
  | awaiting => exact marked
  | panicked => trivial
  | _ => cases attends

/-- What a loop holds stays as it is when the other stores a word. -/
theorem tells_of_stored {word word' : ClientFlags} {held : List ClientFlags} {connection : Nat}
    (tells : ∀ flags ∈ word :: held, ClientFlags.Tells connection flags)
    (stored : word'.Tells connection) :
    ∀ flags ∈ word' :: held, ClientFlags.Tells connection flags := by
  intro flags member
  rcases List.mem_cons.mp member with rfl | member
  · exact stored
  · exact tells flags (List.mem_cons_of_mem _ member)

/-- The read loop keeps the marks of the connection. -/
theorem marks_of_reader (quiet : QuietInv state) (inv : MarksInv state)
    (move : ClientReaderMove state after) : MarksInv after := by
  have read := fun pc (there : state.reader = some pc) => inv.read pc there _ List.mem_cons_self
  cases move with
  | exits place advances =>
      have tells := tells_of_advance .read (inv.read _ place) advances
      have stored := tells _ List.mem_cons_self
      exact { inv with
        mantain := marked_of_attends (attends_of_reader quiet place) inv.mantain _
        read := by rintro _ ⟨⟩; exact tells
        write := fun pc there => tells_of_stored (inv.write pc there) stored }
  | fetched pc | ended pc | unwound pc | named pc | shut pc | shutUnwound pc | delivered pc =>
      refine inv.same rfl rfl rfl rfl ?_ inv.write
      rintro _ ⟨⟩
      simpa [ClientReaderPc.held, ClientExitPc.held] using read _ pc

/-- The write loop keeps the marks of the connection. -/
theorem marks_of_writer (quiet : QuietInv state) (inv : MarksInv state)
    (move : ClientWriterMove state after) : MarksInv after := by
  have write := fun pc (there : state.writer = some pc) => inv.write pc there _ List.mem_cons_self
  cases move with
  | exits place advances =>
      have tells := tells_of_advance .write (inv.write _ place) advances
      have stored := tells _ List.mem_cons_self
      exact { inv with
        mantain := marked_of_attends (attends_of_writer quiet place) inv.mantain _
        read := fun pc there => tells_of_stored (inv.read pc there) stored
        write := by rintro _ ⟨⟩; exact tells }
  | received pc =>
      refine inv.same rfl rfl rfl rfl inv.read ?_
      rintro _ ⟨⟩
      simpa [received_held] using write _ pc
  | wrote pc | failed pc | flushed pc =>
      refine inv.same rfl rfl rfl rfl inv.read ?_
      rintro _ ⟨⟩
      simpa [ClientWriterPc.held, ClientExitPc.held] using write _ pc
  | discarded => exact inv.same rfl rfl rfl rfl inv.read inv.write

/-- Every step keeps the invariant. -/
theorem marks_of_move (quiet : QuietInv state) (inv : MarksInv state)
    (move : ClientMove state label after) : MarksInv after := by
  have marked : ∀ {place}, state.mantain = place →
      place.Marked state.connections (clientFlags state.word) := fun pc => pc ▸ inv.mantain
  have fresh : ∀ {place}, state.mantain = place → place.connects →
      state.autoReconnect = false → state.connections = 0 :=
    fun pc connects without => inv.fresh without (pc ▸ connects)
  cases move with
  | mantained move => exact marks_of_mantain quiet inv move
  | read move | shutSocket move => exact marks_of_reader quiet inv move
  | wrote move => exact marks_of_writer quiet inv move
  | forwarded move =>
      have kept := move.frame
      exact inv.same kept.word kept.mantain kept.connections kept.autoReconnect
        (kept.reader ▸ inv.read) (kept.writer ▸ inv.write)
  | timedOut pc | failed pc =>
      have word := marked pc
      exact marks_of_apart (quiet.apart pc rfl) word inv.once fun without _ => fresh pc rfl without
  | connected pc =>
      have word := marked pc
      refine marks_of_apart (quiet.apart pc rfl) ⟨Nat.succ_pos _, word⟩ (fun without => ?_) nofun
      have none := fresh pc rfl without
      exact Nat.le_of_eq (congrArg (· + 1) none)
  | refused pc | unwound pc => exact marks_of_apart (quiet.apart pc rfl) trivial inv.once nofun
  | @waited elapsed pc =>
      have word := marked pc
      refine marks_of_apart (quiet.apart pc rfl) ?_ inv.once fun without _ => fresh pc rfl without
      cases state.exitLoop || elapsed <;> exact word
  | joinedMantain | joinedForward | shutdown | queued | dropped =>
      exact inv.same rfl rfl rfl rfl inv.read inv.write

/-- The marks hold before the first step. -/
theorem marks_start (autoReconnect : Bool) : MarksInv (.start autoReconnect) :=
  have unmarked : clientFlags 0 = ClientFlags.afterConnections 0 := by decide
  marks_of_apart ⟨rfl, rfl⟩ unmarked (fun _ => Nat.zero_le _) fun _ _ => rfl

/-- The invariant holds in every reachable state. -/
theorem marks_of_reachable (reachable : clientMachine.Reachable state) : MarksInv state := by
  refine (@Machine.Reachable.invariant _ _ _ (fun state => QuietInv state ∧ MarksInv state) _
    reachable ?_ ?_).2
  · rintro _ ⟨autoReconnect, rfl⟩
    exact ⟨quiet_start autoReconnect, marks_start autoReconnect⟩
  · rintro before label after ⟨quiet, inv⟩ taken
    have move := ClientState.move_of_step taken
    exact ⟨quiet_of_move quiet move, marks_of_move quiet inv move⟩

/-- What a task is about to tell of the client is true of the connection. -/
theorem tells_of_posting {task : ClientTask} {flags : ClientFlags} {token : Token}
    (inv : MarksInv state)
    (posting : ClientPosting state task (some (.clientChanged flags token))) :
    flags.Tells state.connections := by
  cases posting with
  | announced pc =>
      have marked := inv.mantain
      rw [pc] at marked
      rw [marked.2.2]
      exact ClientFlags.tells_ofConnection _
  | readExit pc => exact inv.read _ pc _ (by simp [ClientReaderPc.held, ClientExitPc.held])
  | writeExit pc => exact inv.write _ pc _ (by simp [ClientWriterPc.held, ClientExitPc.held])

/-- In every run each message of a client about itself tells which connections are reconnections,
whatever the loops undo, and without reconnecting there is one connection at most. -/
theorem client_marks {autoReconnect : Bool}
    (run : clientMachine.Run (.start autoReconnect) trace state) : ClientMarks trace state where
  told := by
    induction run with
    | nil => exact fun posted member => absurd member List.not_mem_nil
    | @snoc trace before label after prior taken ih =>
        obtain ⟨sent, posting, -, log⟩ := @sentLog_of_step before after label trace taken
        intro posted member flags token body
        rw [log] at member
        rcases List.mem_append.mp member with earlier | added
        · exact ih posted earlier flags token body
        · have inv := marks_of_reachable ⟨_, trace, ⟨autoReconnect, rfl⟩, prior⟩
          obtain ⟨message, tagged, rfl⟩ := List.mem_map.mp added
          obtain ⟨told, is, rfl⟩ := Option.map_eq_some_iff.mp (Option.mem_toList.mp tagged)
          dsimp only at body
          rw [is, body] at posting
          exact tells_of_posting inv posting
  once := (marks_of_reachable ⟨_, trace, ⟨autoReconnect, rfl⟩, run⟩).once

/-- The trace of `staleNotice`: a client that has connected twice. -/
def twiceTrace : List (ClientState × ClientLabel) :=
  clientMachine.traceOf (.start true) staleNotice

/-- A client with reconnecting that comes to its second connection. -/
theorem twiceTrace_marks :
    ∃ state, clientMachine.Run (.start true) twiceTrace state ∧ state.connections = 2 ∧
      ClientMarks twiceTrace state := by
  obtain ⟨state, run, twice⟩ := @Machine.run_of_exec_any _ _ clientMachine (.start true)
    staleNotice (fun state => state.connections == 2) (by decide)
  exact ⟨state, run, by simpa using twice, client_marks run⟩

end H2l
