import H2l.Client.Reconnect
import H2l.Client.Stalls
import H2l.Wire.Greeting

/-!
# How a client comes to a deadlock

A client that connects again while its forward loop still waits to send a notice may
come to a deadlock (`deadlock_follows`): a peer that keeps sending fills the incoming
channel, a write that fails takes the write loop out, and user code fills the outgoing
channel behind it.
-/

namespace H2l

open Base

/-- The opening's SETTINGS frame, again and again. -/
def flood (count : Nat) : List Byte := (List.replicate count Consts.http20Settings).flatten

/-- A peer that answers the greeting with a flood. -/
def floodingPeer (count : Nat) : TcpStream := ⟨Source.ofContent (flood count) none, 2, []⟩

theorem flood_succ (count : Nat) : flood (count + 1) = Consts.http20Settings ++ flood count := by
  rw [flood, List.replicate_succ, List.flatten_cons, flood]

/-- A flood of one frame or more begins with a whole one. -/
theorem flood_whole (count : Nat) :
    Consts.http20Settings.length ≤ (flood (count + 1)).length := by
  rw [flood_succ, List.length_append]
  exact Nat.le_add_right _ _

/-- Without its first frame a flood is a shorter flood. -/
theorem flood_drop (count : Nat) :
    (flood (count + 1)).drop Consts.http20Settings.length = flood count := by
  rw [flood_succ, List.drop_left]

/-- The handshake takes the first frame of a flood. -/
theorem handshake_flood (count : Nat) :
    ∃ after, Client.handshake (floodingPeer (count + 1)) = (.ok Settings.offered, after) ∧
      after.input.content = flood count := by
  have content : (floodingPeer (count + 1)).input.content = flood (count + 1) :=
    Source.content_ofContent _ _
  obtain ⟨after, reads, left⟩ := @readServerSettings_of_spells _ (flood count) _
    (spells_offered .client)
    ⟨(floodingPeer (count + 1)).input, 0, [] ++ Consts.clientOpening⟩
    (by simp only [content, flood_succ, List.prefix_rfl])
    (by simp only [content]; exact flood_whole count)
  refine ⟨_, (handshake_opens (Nat.le_refl 2)).trans reads, ?_⟩
  simp only [left, content, flood_drop]

/-- A turn of the frame loop takes one more. -/
theorem readFrame_flood {input : TcpInput} {count : Nat}
    (content : input.content = flood (count + 1)) :
    ∃ after, Client.readFrame input = (.ok (.settings Settings.offered), after) ∧
      after.content = flood count := by
  obtain ⟨after, delivers, left, -⟩ := @Spells.delivers .client _ (flood count) _
    (spells_offered .client) input (by simp only [content, flood_succ, List.prefix_rfl])
    (by rw [content]; exact flood_whole count)
  exact ⟨after, delivers, by rw [left, content, flood_drop]⟩

variable {state : ClientState}

/-- The read loop puts frames on the incoming channel while there is room. -/
theorem leads_flood (more : Nat) : ∀ {state : ClientState} {input : TcpInput} {count : Nat},
    state.reader = some (.reading input) → input.content = flood (count + more) →
    state.incoming.items.length + more ≤ 4096 →
    ∃ (incoming : Channel ClientMessage 4096) (after : TcpInput),
      clientMachine.Leads state { state with incoming, reader := some (.reading after) } ∧
      incoming.items.length = state.incoming.items.length + more ∧
      after.content = flood count := by
  induction more with
  | zero =>
      intro state input count place content room
      exact ⟨state.incoming, input, by rw [← place]; exact .refl state, rfl, content⟩
  | succ more ih =>
      intro state input count place content room
      obtain ⟨rest, reads, left⟩ := readFrame_flood content
      obtain ⟨sent, sends, items⟩ := Channel.trySend_of_lt
        (⟨.frame (.settings Settings.offered) (some ⟨state.rawToken⟩), state.connections⟩ :
          ClientMessage) (show state.incoming.items.length < 4096 by omega)
      have fetched : clientMachine.step state .read = some { state with
          reader := some (.naming (.settings Settings.offered) rest) } := by
        simp [clientMachine, ClientState.step, ClientState.readStep, place, reads]
      have named : clientMachine.step { state with
          reader := some (.naming (.settings Settings.offered) rest) } .read = some { state with
          reader := some (.delivering (.settings Settings.offered) ⟨state.rawToken⟩ rest) } := rfl
      have delivered : clientMachine.step { state with
          reader := some (.delivering (.settings Settings.offered) ⟨state.rawToken⟩ rest) } .read =
          some { state with incoming := sent, reader := some (.reading rest) } := by
        simp [clientMachine, ClientState.step, ClientState.readStep, ClientState.deliver, sends]
      have length : sent.items.length = state.incoming.items.length + 1 := by
        rw [items, List.length_append]
        rfl
      obtain ⟨incoming, after, leads, filled, content⟩ :=
        @ih { state with incoming := sent, reader := some (.reading rest) } rest count rfl left
          (by simp only [length]; omega)
      refine ⟨incoming, after, .step fetched (.step named (.step delivered leads)), ?_, content⟩
      rw [filled]
      simp only [length]
      omega

/-- User code fills the outgoing channel. -/
theorem leads_filled (more : Nat) : ∀ {state : ClientState},
    state.outgoing.items.length + more = 4096 →
    ∃ outgoing : Channel ClientMessage 4096,
      clientMachine.Leads state { state with outgoing } ∧ outgoing.items.length = 4096 := by
  induction more with
  | zero =>
      intro state full
      exact ⟨state.outgoing, .refl state, full⟩
  | succ more ih =>
      intro state room
      obtain ⟨sent, sends, items⟩ := Channel.trySend_of_lt
        (⟨.bytes [] none, state.connections⟩ : ClientMessage)
        (show state.outgoing.items.length < 4096 by omega)
      have queued : clientMachine.step state (.trySend (.bytes [] none)) =
          some { state with outgoing := sent } := by
        simp [clientMachine, ClientState.step, ClientState.trySendStep, sends]
      obtain ⟨outgoing, leads, full⟩ := @ih { state with outgoing := sent }
        (by simp only [items, List.length_append, List.length_singleton]; omega)
      exact ⟨outgoing, .step queued leads, full⟩

/-- The maintenance loop opens a connection while there is room. -/
theorem leads_opened {token : Nat} {session : Session}
    (place : state.mantain = .storeToken token session)
    (room : state.incoming.items.length + 2 ≤ 4096) :
    ∃ word, ∃ incoming : Channel ClientMessage 4096,
      clientMachine.Leads state { state with
        word, rawToken := token, incoming, mantain := .awaiting
        reader := some (.reading session.input), writer := some .receiving } ∧
      incoming.items.length = state.incoming.items.length + 2 := by
  generalize shaken : (FlagSet.union (clientFlags state.word) ClientFlags.handshaked).bits = word
  obtain ⟨first, announces, one⟩ := Channel.trySend_of_lt
    (⟨.clientChanged (clientFlags word) ⟨token⟩, state.connections⟩ : ClientMessage)
    (show state.incoming.items.length < 4096 by omega)
  have length : first.items.length = state.incoming.items.length + 1 := by
    rw [one, List.length_append]
    rfl
  obtain ⟨second, sends, two⟩ := Channel.trySend_of_lt
    (⟨.frame (.settings session.settings) (some ⟨token⟩), state.connections⟩ : ClientMessage)
    (show first.items.length < 4096 by omega)
  have stored : clientMachine.step state .mantain = some { state with
      rawToken := token, mantain := .handshakedLoad session } := by
    simp [clientMachine, ClientState.step, ClientState.mantainStep, place]
  have marked : clientMachine.Leads
      { state with rawToken := token, mantain := .handshakedLoad session }
      { state with word, rawToken := token, mantain := .loadFlags session } := by
    refine @Machine.Leads.step _ _ _ _ _ _ .mantain rfl ?_
    refine @Machine.Leads.step _ _ _ _ _ _ .mantain rfl ?_
    rw [← shaken]
    exact .refl _
  have announced : clientMachine.Leads
      { state with word, rawToken := token, mantain := .loadFlags session }
      { state with
        word, rawToken := token, incoming := first, mantain := .loadSettingsToken session } := by
    refine @Machine.Leads.step _ _ _ _ _ _ .mantain rfl ?_
    refine @Machine.Leads.step _ _ _ _ _ _ .mantain rfl ?_
    refine @Machine.Leads.step _ _ _ _ _ _ .mantain ?_ (.refl _)
    simp [clientMachine, ClientState.step, ClientState.mantainStep, ClientState.deliver, announces]
  have greeted : clientMachine.Leads
      { state with
        word, rawToken := token, incoming := first, mantain := .loadSettingsToken session }
      { state with
        word, rawToken := token, incoming := second, mantain := .spawn session.input } := by
    refine @Machine.Leads.step _ _ _ _ _ _ .mantain rfl ?_
    refine @Machine.Leads.step _ _ _ _ _ _ .mantain ?_ (.refl _)
    simp [clientMachine, ClientState.step, ClientState.mantainStep, ClientState.deliver, sends]
  have spawned : clientMachine.Leads
      { state with
        word, rawToken := token, incoming := second, mantain := .spawn session.input }
      { state with
        word, rawToken := token, incoming := second, mantain := .awaiting
        reader := some (.reading session.input), writer := some .receiving } :=
    @Machine.Leads.step _ _ _ _ _ _ .mantain rfl (.refl _)
  refine ⟨word, second,
    .step stored (((marked.trans announced).trans greeted).trans spawned), ?_⟩
  rw [two, List.length_append, length]
  rfl

/-- A write that fails takes the write loop out, up to its exit message. -/
theorem leads_unwritten (place : state.writer = some .receiving)
    (nothing : state.outgoing.items = []) :
    ∃ word flags token, ∃ outgoing : Channel ClientMessage 4096,
      clientMachine.Leads state { state with
        word, outgoing, writer := some (.closing (.announce flags token)) } ∧
      outgoing.items = [] := by
  obtain ⟨queued, sends, one⟩ := Channel.trySend_of_lt
    (⟨.bytes [0] none, state.connections⟩ : ClientMessage)
    (show state.outgoing.items.length < 4096 by simp [nothing])
  rw [nothing, List.nil_append] at one
  obtain ⟨outgoing, receives, left⟩ := Channel.recv_of_items one
  have empty : outgoing.recv = none := (Channel.recv_eq_none_iff _).mpr left
  have asked : clientMachine.step state (.trySend (.bytes [0] none)) =
      some { state with outgoing := queued } := by
    simp only [clientMachine, ClientState.step, ClientState.trySendStep, sends]
  have taken : clientMachine.step { state with outgoing := queued } (.write true) =
      some { state with outgoing, writer := some (.writing (.bytes [0] none)) } := by
    simp [clientMachine, ClientState.step, ClientState.writeStep, place, receives,
      ClientWriterPc.received]
  have failed : clientMachine.step
      { state with outgoing, writer := some (.writing (.bytes [0] none)) } (.write false) =
      some { state with outgoing, writer := some .flushing } := rfl
  have flushed : clientMachine.step { state with outgoing, writer := some .flushing }
      (.write true) = some { state with outgoing, writer := some (.closing .load) } := by
    simp [clientMachine, ClientState.step, ClientState.writeStep, empty]
  generalize stored : (FlagSet.union (clientFlags state.word) ClientFlags.writeClosed).bits = word
  have closes : clientMachine.Leads { state with outgoing, writer := some (.closing .load) }
      { state with
        word, outgoing
        writer := some (.closing (.announce (clientFlags word) ⟨state.rawToken⟩)) } := by
    refine @Machine.Leads.step _ _ _ _ _ _ (.write true) rfl ?_
    refine @Machine.Leads.step _ _ _ _ _ _ (.write true) rfl ?_
    refine @Machine.Leads.step _ _ _ _ _ _ (.write true) rfl ?_
    refine @Machine.Leads.step _ _ _ _ _ _ (.write true) rfl ?_
    rw [← stored]
    exact .refl _
  exact ⟨word, _, _, outgoing,
    .step asked (.step taken (.step failed (.step flushed closes))), left⟩

/-- A read loop with one more frame of a flood is about to send it. -/
theorem leads_delivering {input : TcpInput} {count : Nat}
    (place : state.reader = some (.reading input)) (content : input.content = flood (count + 1)) :
    ∃ token rest, clientMachine.Leads state { state with
      reader := some (.delivering (.settings Settings.offered) token rest) } := by
  obtain ⟨rest, reads, -⟩ := readFrame_flood content
  have fetched : clientMachine.step state .read = some { state with
      reader := some (.naming (.settings Settings.offered) rest) } := by
    simp [clientMachine, ClientState.step, ClientState.readStep, place, reads]
  exact ⟨_, rest, .step fetched (@Machine.Leads.step _ _ _ _ _ _ .read rfl (.refl _))⟩

/-- A client that connects while its forward loop waits to send a notice may come to a deadlock. -/
theorem deadlock_follows {message : ClientMessage} {flags : ClientFlags} {token : Token}
    (connects : state.mantain = .connecting)
    (waits : state.forward = .notifying message flags token)
    (nothing : state.outgoing.items = []) (room : state.incoming.items.length + 2 ≤ 4096) :
    ∃ final, clientMachine.Leads state final ∧ final.Deadlocked := by
  obtain ⟨more, fits⟩ := Nat.exists_eq_add_of_le room
  obtain ⟨after, shaken, content⟩ := handshake_flood (1 + more)
  have connected : clientMachine.step state
      (.connect (.connected 8 (floodingPeer (1 + more + 1)))) = some { state with
        connections := state.connections + 1
        mantain := .storeToken 8 ⟨Settings.offered, after.input⟩ } := by
    simp [clientMachine, ClientState.step, ClientState.connectStep, connects, shaken]
  obtain ⟨word, incoming, opens, two⟩ := @leads_opened { state with
    connections := state.connections + 1
    mantain := .storeToken 8 ⟨Settings.offered, after.input⟩ } 8 _ rfl room
  generalize opened : ({ state with
    connections := state.connections + 1, word, rawToken := 8, incoming, mantain := .awaiting
    reader := some (.reading after.input), writer := some .receiving } : ClientState) = first
    at opens
  have reading : first.reader = some (.reading after.input) := by rw [← opened]
  have awaiting : first.mantain = .awaiting := by rw [← opened]
  have notifying : first.forward = .notifying message flags token := by rw [← opened, waits]
  have length : first.incoming.items.length + more = 4096 := by
    rw [← opened]
    simp only [two]
    omega
  obtain ⟨word, exitFlags, name, outgoing, leaves, empty⟩ := @leads_unwritten first
    (by rw [← opened]) (by rw [← opened]; exact nothing)
  obtain ⟨full, fills, crowded⟩ := @leads_filled 4096 { first with
    word, outgoing, writer := some (.closing (.announce exitFlags name)) } (by simp [empty])
  obtain ⟨incoming, rest, floods, filled, further⟩ := @leads_flood more { first with
    word, outgoing := full, writer := some (.closing (.announce exitFlags name)) } after.input 1
    reading content (Nat.le_of_eq length)
  obtain ⟨last, left, delivers⟩ := @leads_delivering { first with
    word, outgoing := full, incoming, reader := some (.reading rest)
    writer := some (.closing (.announce exitFlags name)) } rest 0 rfl further
  refine ⟨_, .step connected (opens.trans (leaves.trans (fills.trans (floods.trans delivers)))),
    ⟨_, _, _, notifying⟩, crowded, filled.trans length, .read awaiting rfl rfl rfl (.inl rfl)⟩

/-- The client connects again, and its forward loop waits to send a notice. -/
def ClientState.holdsNotice (state : ClientState) : Bool :=
  match state.mantain, state.forward with
  | .connecting, .notifying _ _ _ =>
      state.outgoing.items.isEmpty && decide (state.incoming.items.length + 2 ≤ 4096)
  | _, _ => false

/-- `staleNotice`, up to its second connection. -/
def heldNotice : List ClientLabel := staleNotice.take 45

/-- A peer that floods a client whose own channel is full brings about the deadlock. -/
theorem heldNotice_deadlocks :
    ∃ final, clientMachine.Reachable final ∧ final.Deadlocked := by
  obtain ⟨state, run, holds⟩ := @Machine.run_of_exec_any _ _ clientMachine (.start true)
    heldNotice ClientState.holdsNotice (by decide)
  unfold ClientState.holdsNotice at holds
  split at holds
  next message flags token connects waits =>
    simp only [Bool.and_eq_true, List.isEmpty_iff, decide_eq_true_eq] at holds
    obtain ⟨final, ⟨trace, onward⟩, locked⟩ :=
      deadlock_follows connects waits holds.1 holds.2
    exact ⟨final, ⟨_, _, ⟨true, rfl⟩, run.append onward⟩, locked⟩
  next => cases holds

end H2l
