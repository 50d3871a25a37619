import H2l.Base.Ledger
import H2l.Client.Log

/-!
# What a client writes, over all its connections

The outgoing channel outlives a connection. What user code and the forward loop put on
it is taken off in order and once. The write loop of a connection takes a piece of it, writes
this piece and nothing else, and drops what is queued behind it when it ends.
-/

namespace H2l

open Base

namespace ClientState

/-- What a step would put on the outgoing channel. -/
def offers (state : ClientState) : ClientLabel → Option ClientMessage
  | .trySend tr => some ⟨tr, state.connections⟩
  | .forward =>
      match state.forward with
      | .notifying message flags token => some ⟨.clientChanged flags token, message.connection⟩
      | _ => none
  | _ => none

/-- The oldest transaction of the outgoing channel. -/
def next (state : ClientState) : Option Transaction :=
  state.outgoing.items.head?.map ClientMessage.body

/-- A handshake is under way or its loops are to be started, or the write loop is in its receive
loop. -/
def takes (state : ClientState) : Bool :=
  state.mantain.opens || state.writer.any ClientWriterPc.receives

/-- The write loop of a connection is still to come, or in its receive loop. -/
def mayTake (state : ClientState) (connection : Nat) : Prop :=
  state.connections < connection ∨ state.connections = connection ∧ state.takes

/-- What the write loop has in hand. -/
def hand (state : ClientState) : List Byte :=
  match state.writer with
  | some (.writing tr) => tr.emitted
  | _ => []

end ClientState

/-- What a step puts on the outgoing channel. -/
def enqueued : ClientState × ClientLabel → List Transaction
  | (state, label) =>
      match state.offers label with
      | some message => if (state.outgoing.trySend message).isSome then [message.body] else []
      | none => []

/-- What a step takes off the outgoing channel. -/
def dequeued : ClientState × ClientLabel → List Transaction
  | (state, .write _) =>
      match state.writer with
      | some .receiving | some .flushing => state.next.toList
      | _ => []
  | _ => []

/-- What the write loop of a connection takes off the outgoing channel to write it. -/
def takenBy (connection : Nat) : ClientState × ClientLabel → List Transaction
  | (state, .write _) =>
      if state.connections = connection ∧ state.writer = some .receiving then state.next.toList
      else []
  | _ => []

/-- The bytes that a connection hands to its socket in a step, whether they all arrive or not. -/
def handedOver (connection : Nat) : ClientState × ClientLabel → List Byte
  | (state, .write _) => if state.connections = connection then state.hand else []
  | _ => []

variable {state after : ClientState} {label : ClientLabel}
  {trace : List (ClientState × ClientLabel)}

/-- The items of the outgoing channel. -/
def ClientState.waiting (state : ClientState) : List Transaction :=
  state.outgoing.items.map ClientMessage.body

/-- Only the write loop takes from the outgoing channel. -/
theorem takenBy_other (connection : Nat) (idle : label.task ≠ .writeLoop) :
    takenBy connection (state, label) = [] := by
  cases label with
  | write written => exact absurd rfl idle
  | _ => rfl

/-- Only the write loop hands bytes to a socket. -/
theorem handedOver_other (connection : Nat) (idle : label.task ≠ .writeLoop) :
    handedOver connection (state, label) = [] := by
  cases label with
  | write written => exact absurd rfl idle
  | _ => rfl

/-- The channel after a step that offers something. -/
theorem waiting_of_offer {message : ClientMessage} {outgoing : Channel ClientMessage 4096}
    (offers : state.offers label = some message)
    (sends : state.outgoing.trySend message = some outgoing) (same : after.outgoing = outgoing) :
    after.waiting = state.waiting ++ enqueued (state, label) := by
  rw [ClientState.waiting, same, Channel.trySend_items sends]
  simp [enqueued, offers, sends, ClientState.waiting]

/-- A step that offers nothing, or is refused, leaves the channel. -/
theorem waiting_of_kept (kept : after.outgoing = state.outgoing)
    (refused : ∀ message, state.offers label = some message →
      state.outgoing.trySend message = none) :
    after.waiting = state.waiting ++ enqueued (state, label) := by
  rw [ClientState.waiting, kept, enqueued]
  cases offers : state.offers label with
  | none => simp [ClientState.waiting]
  | some message => simp [refused message offers, ClientState.waiting]

/-- What is received is the next message, and it no longer waits. -/
theorem next_of_recv {message : ClientMessage} {outgoing : Channel ClientMessage 4096}
    (receives : state.outgoing.recv = some (message, outgoing)) :
    state.next = some message.body ∧
      state.waiting = message.body :: outgoing.items.map ClientMessage.body := by
  have items := Channel.recv_items receives
  constructor
  · rw [ClientState.next, items]
    rfl
  · rw [ClientState.waiting, items]
    rfl

/-- An empty channel has no next message. -/
theorem next_of_empty (empty : state.outgoing.recv = none) : state.next = none := by
  rw [ClientState.next, (Channel.recv_eq_none_iff _).mp empty]
  rfl

/-- A step of the write loop takes what it receives. -/
theorem waiting_of_writer {written : Bool} (move : ClientWriterMove state after) :
    state.waiting = dequeued (state, .write written) ++ after.waiting := by
  cases move with
  | received pc receives | discarded pc receives =>
      obtain ⟨next, waiting⟩ := next_of_recv receives
      simp only [dequeued, pc, next, waiting]
      rfl
  | flushed pc empty =>
      simp only [dequeued, pc, next_of_empty empty]
      rfl
  | wrote pc | failed pc =>
      simp only [dequeued, pc]
      rfl
  | exits place =>
      simp only [dequeued, place]
      rfl

/-- Every step takes from the front of the outgoing channel and puts at its end. -/
theorem waiting_of_move (move : ClientMove state label after) :
    state.waiting ++ enqueued (state, label) = dequeued (state, label) ++ after.waiting := by
  have kept : dequeued (state, label) = [] → after.outgoing = state.outgoing →
      (∀ message, state.offers label = some message → state.outgoing.trySend message = none) →
      state.waiting ++ enqueued (state, label) = dequeued (state, label) ++ after.waiting := by
    intro silent same refused
    rw [silent, waiting_of_kept same refused, List.nil_append]
  cases move with
  | wrote move =>
      exact (List.append_nil _).trans (waiting_of_writer move)
  | forwarded move =>
      cases move with
      | notified pc sends =>
          exact (waiting_of_offer (by simp [ClientState.offers, pc]) sends rfl).symm
      | received pc | handled pc | loadedFlags pc | loadedToken pc | called pc =>
          exact kept rfl rfl (by simp [ClientState.offers, pc])
  | queued sends => exact (waiting_of_offer rfl sends rfl).symm
  | dropped full =>
      refine kept rfl rfl fun message offers => ?_
      cases offers
      exact full
  | mantained move => exact kept rfl move.frame.outgoing (by simp [ClientState.offers])
  | read move | shutSocket move => exact kept rfl move.frame.outgoing (by simp [ClientState.offers])
  | _ => exact kept rfl rfl (by simp [ClientState.offers])

/-- What was enqueued is what was dequeued and what waits, in that order. -/
theorem outgoing_ledger :
    clientMachine.Ledger ClientState.waiting enqueued dequeued where
  balanced _ taken := waiting_of_move (ClientState.move_of_step taken)

/-- What a write loop received is in its hand, if it is to be written. -/
theorem hand_of_received {place : Option ClientWriterPc} {tr : Transaction}
    (received : state.writer = place) (is : place = some (.received tr)) :
    state.hand = tr.emitted := by
  rw [is] at received
  cases tr with
  | clientChanged flags token =>
      simp only [ClientWriterPc.received] at received
      by_cases closed : FlagSet.contains flags ClientFlags.readClosed = true
      · rw [if_pos closed] at received
        simp [ClientState.hand, received, Transaction.emitted]
      · rw [if_neg closed] at received
        simp [ClientState.hand, received, Transaction.emitted]
  | bytes | frame => simp [ClientState.hand, received, ClientWriterPc.received]
  | _ => simp [ClientState.hand, received, ClientWriterPc.received, Transaction.emitted]

/-- A write loop is there only once its connection has been opened. -/
theorem opens_of_writer (quiet : QuietInv state) {pc : ClientWriterPc}
    (there : state.writer = some pc) : state.mantain.opens = false := by
  cases attends : state.mantain.attends with
  | true => exact opens_of_attends attends
  | false =>
      have none := (quiet.alone attends).2
      rw [there] at none
      cases none

/-- A write loop that has left its receive loop does not come back. -/
theorem takes_of_turn (turn : ConnectionTurn state label after)
    (opened : after.mantain.opens = false) (takes : after.takes) : state.takes := by
  simp only [ClientState.takes, opened, Bool.false_or] at takes
  have same : after.writer = state.writer → state.takes := fun same => by
    rw [same] at takes
    simp [ClientState.takes, takes]
  cases turn with
  | apart read written loops => simp [loops.2] at takes
  | read task move => exact same move.frame.writer
  | wrote task move =>
      cases move with
      | received pc | wrote pc => simp [ClientState.takes, pc, ClientWriterPc.receives]
      | discarded pc => simp [pc, ClientWriterPc.receives] at takes
      | failed | flushed | exits => simp [ClientWriterPc.receives] at takes
  | forwarded move => exact same move.frame.writer
  | kept loops => exact same loops.2

/-- A connection that may not take any more never may again. -/
theorem mayTake_of_move (quiet : QuietInv state) (move : ClientMove state label after)
    {connection : Nat} (may : after.mayTake connection) : state.mayTake connection := by
  have grows := connections_of_move move
  rcases may with later | ⟨now, takes⟩
  · exact .inl (by omega)
  · by_cases same : after.connections = state.connections
    · refine .inr ⟨by omega, ?_⟩
      by_cases opens : state.mantain.opens
      · simp [ClientState.takes, opens]
      · obtain ⟨closed, turn⟩ := turn_of_move quiet move (by simpa using opens) same
        exact takes_of_turn turn closed takes
    · exact .inl (by omega)

/-- Only the current connection takes, and only in its receive loop. -/
theorem takes_of_taken {connection : Nat} (taken : takenBy connection (state, label) ≠ []) :
    state.connections = connection ∧ state.takes := by
  cases label with
  | write written =>
      simp only [takenBy] at taken
      split at taken
      next both => exact ⟨both.1, by simp [ClientState.takes, both.2, ClientWriterPc.receives]⟩
      next => exact absurd rfl taken
  | _ => exact absurd rfl taken

/-- While a connection takes, everything that leaves the channel is taken. -/
theorem taken_of_takes (quiet : QuietInv state) (takes : state.takes) :
    takenBy state.connections (state, label) = dequeued (state, label) := by
  cases label with
  | write written =>
      simp only [takenBy, dequeued, true_and]
      cases place : state.writer with
      | none => rfl
      | some pc =>
          have opened := opens_of_writer quiet place
          simp only [ClientState.takes, opened, place, Bool.false_or, Option.any_some] at takes
          cases pc with
          | receiving => rfl
          | writing tr => rfl
          | flushing | closing => cases takes
  | _ => rfl

/-- What a connection took is one piece of what left the channel. -/
structure OnePiece (connection : Nat) (trace : List (ClientState × ClientLabel))
    (state : ClientState) : Prop where
  piece : ∃ earlier later,
    trace.flatMap dequeued = earlier ++ trace.flatMap (takenBy connection) ++ later ∧
      (state.mayTake connection → later = [])
  fresh : state.connections < connection → trace.flatMap (takenBy connection) = []

/-- A step extends the piece of the current connection, or leaves it alone. -/
theorem onePiece_of_step {connection : Nat} (quiet : QuietInv state)
    (move : ClientMove state label after) (pieces : OnePiece connection trace state) :
    OnePiece connection (trace ++ [(state, label)]) after := by
  obtain ⟨⟨earlier, later, split, ends⟩, fresh⟩ := pieces
  have grows := connections_of_move move
  have left : (trace ++ [(state, label)]).flatMap dequeued =
      trace.flatMap dequeued ++ dequeued (state, label) := by
    rw [List.flatMap_append, List.flatMap_singleton]
  have taken : (trace ++ [(state, label)]).flatMap (takenBy connection) =
      trace.flatMap (takenBy connection) ++ takenBy connection (state, label) := by
    rw [List.flatMap_append, List.flatMap_singleton]
  by_cases now : state.connections = connection ∧ state.takes
  · obtain ⟨rfl, takes⟩ := now
    refine ⟨⟨earlier, [], ?_, fun _ => rfl⟩, fun before => by omega⟩
    rw [left, taken, taken_of_takes quiet takes, split, ends (.inr ⟨rfl, takes⟩)]
    simp only [List.append_nil, List.append_assoc]
  · have silent : takenBy connection (state, label) = [] := by
      exact Classical.byContradiction fun taken => now (takes_of_taken taken)
    rw [silent, List.append_nil] at taken
    by_cases before : state.connections < connection
    · have none := fresh before
      exact ⟨⟨_, [], by rw [left, taken, none, List.append_nil, List.append_nil], fun _ => rfl⟩,
        fun _ => taken.trans none⟩
    · refine ⟨⟨earlier, later ++ dequeued (state, label), ?_, fun may => ?_⟩, fun later => by omega⟩
      · rw [left, taken, split, List.append_assoc _ later]
      · exact ((mayTake_of_move quiet move may).elim before now).elim

/-- In every run a connection takes one piece of what left the channel. -/
theorem onePiece_of_run {autoReconnect : Bool}
    (run : clientMachine.Run (.start autoReconnect) trace state) (connection : Nat) :
    OnePiece connection trace state := by
  refine run.traceInvariant ?_ fun prior pieces taken => ?_
  · exact ⟨⟨[], [], rfl, fun _ => rfl⟩, fun _ => rfl⟩
  · exact onePiece_of_step (quiet_of_reachable ⟨_, _, ⟨autoReconnect, rfl⟩, prior⟩)
      (ClientState.move_of_step taken) pieces

/-- What the write loop of a connection has in hand. -/
def ClientState.handOf (connection : Nat) (state : ClientState) : List Byte :=
  if state.connections = connection then state.hand else []

/-- After a step of the write loop, what it took is in its hand. -/
theorem hand_of_writer (written : Bool) (move : ClientWriterMove state after) :
    after.hand =
      (takenBy state.connections (state, .write written)).flatMap Transaction.emitted := by
  cases move with
  | received pc receives =>
      rw [hand_of_received rfl rfl, takenBy, if_pos ⟨rfl, pc⟩, (next_of_recv receives).1]
      exact (List.append_nil _).symm
  | wrote pc | failed pc | discarded pc | flushed pc =>
      simp [takenBy, pc, ClientState.hand]
  | exits place => simp [takenBy, place, ClientState.hand]

/-- The maintenance loop leaves what a write loop has in hand. -/
theorem hand_of_mantain (quiet : QuietInv state) (move : MantainMove state after) :
    after.hand = state.hand := by
  cases move with
  | joined pc reader writer => simp [ClientState.hand, writer]
  | spawned pc => simp [ClientState.hand, (quiet.apart pc rfl).2]
  | _ => rfl

/-- What a connection takes is in its hand and then written. -/
theorem handOf_of_move (quiet : QuietInv state) (move : ClientMove state label after)
    (connection : Nat) :
    state.handOf connection ++ (takenBy connection (state, label)).flatMap Transaction.emitted =
      handedOver connection (state, label) ++ after.handOf connection := by
  have idle : label.task ≠ .writeLoop → after.handOf connection = state.handOf connection →
      state.handOf connection ++
          (takenBy connection (state, label)).flatMap Transaction.emitted =
        handedOver connection (state, label) ++ after.handOf connection := by
    intro other same
    rw [takenBy_other connection other, handedOver_other connection other, same]
    exact List.append_nil _
  have kept : after.connections = state.connections → after.hand = state.hand →
      after.handOf connection = state.handOf connection := by
    intro connections hand
    rw [ClientState.handOf, ClientState.handOf, connections, hand]
  cases move with
  | @wrote written _ move =>
      have same := move.frame.connections
      rw [ClientState.handOf, ClientState.handOf, handedOver, same]
      by_cases own : state.connections = connection
      · subst own
        rw [if_pos rfl, if_pos rfl, hand_of_writer written move]
      · rw [if_neg own, if_neg own, takenBy, if_neg fun both => own both.1]
        rfl
  | mantained move =>
      exact idle (by simp [ClientLabel.task])
        (kept move.frame.connections (hand_of_mantain quiet move))
  | connected pc =>
      refine idle (by simp [ClientLabel.task]) ?_
      have empty : state.hand = [] := by simp [ClientState.hand, (quiet.apart pc rfl).2]
      have none : ∀ mantain, ClientState.hand { state with
          connections := state.connections + 1, mantain } = [] := fun _ => empty
      simp [ClientState.handOf, none, empty]
  | read move | shutSocket move =>
      exact idle (by simp [ClientLabel.task]) (kept move.frame.connections (by
        rw [ClientState.hand, move.frame.writer, ClientState.hand]))
  | forwarded move =>
      exact idle (by simp [ClientLabel.task]) (kept move.frame.connections (by
        rw [ClientState.hand, move.frame.writer, ClientState.hand]))
  | _ => exact idle (by simp [ClientLabel.task]) (kept rfl rfl)

/-- What a connection took is what it handed over and what it has in hand. -/
theorem hand_ledger (connection : Nat) :
    clientMachine.Ledger (ClientState.handOf connection)
      (fun step => (takenBy connection step).flatMap Transaction.emitted)
      (handedOver connection) where
  balanced reachable taken :=
    handOf_of_move (quiet_of_reachable reachable) (ClientState.move_of_step taken) connection

/-- What a connection writes of what was put on the outgoing channel. -/
structure ClientWrites (trace : List (ClientState × ClientLabel)) (state : ClientState)
    (connection : Nat) : Prop where
  /-- Everything leaves the channel once and in order. -/
  queued : trace.flatMap enqueued = trace.flatMap dequeued ++ state.waiting
  /-- A connection takes one piece of it. -/
  piece : trace.flatMap (takenBy connection) <:+: trace.flatMap enqueued
  /-- While the connection takes, nothing behind its piece has left the channel. -/
  last : state.mayTake connection →
    ∃ earlier, trace.flatMap enqueued =
      earlier ++ trace.flatMap (takenBy connection) ++ state.waiting
  inOrder : trace.flatMap (handedOver connection) <+:
    (trace.flatMap (takenBy connection)).flatMap Transaction.emitted
  complete : state.handOf connection = [] → trace.flatMap (handedOver connection) =
    (trace.flatMap (takenBy connection)).flatMap Transaction.emitted
  /-- Nothing is written on a connection once its write loop has left. -/
  stops : trace.Pairwise fun step later =>
    ¬ step.1.mayTake connection → handedOver connection later = []

/-- Only the current connection hands anything over. -/
theorem mayTake_of_handed {connection : Nat} (hands : handedOver connection (state, label) ≠ []) :
    state.mayTake connection := by
  cases label with
  | write written =>
      simp only [handedOver] at hands
      split at hands
      next own =>
        refine .inr ⟨own, ?_⟩
        unfold ClientState.hand at hands
        split at hands
        next tr place => simp [ClientState.takes, place, ClientWriterPc.receives]
        next => exact absurd rfl hands
      next => exact absurd rfl hands
  | _ => exact absurd rfl hands

/-- In every run every connection writes one piece of what was put on the outgoing channel. -/
theorem client_writes {autoReconnect : Bool}
    (run : clientMachine.Run (.start autoReconnect) trace state) (connection : Nat) :
    ClientWrites trace state connection := by
  have valid : clientMachine.initial (.start autoReconnect) := ⟨autoReconnect, rfl⟩
  have queued : trace.flatMap enqueued = trace.flatMap dequeued ++ state.waiting :=
    run.ledger outgoing_ledger valid
  have empty : ClientState.handOf connection (.start autoReconnect) = [] := ite_self _
  obtain ⟨⟨earlier, later, split, ends⟩, -⟩ := onePiece_of_run run connection
  have pairs : trace.Pairwise fun step later =>
      later.1.mayTake connection → step.1.mayTake connection :=
    (run.follows valid (fun first second may => first (second may)) fun reachable taken =>
      mayTake_of_move (quiet_of_reachable reachable) (ClientState.move_of_step taken)).2
  refine ⟨queued, ⟨earlier, later ++ state.waiting, ?_⟩, fun may => ⟨earlier, ?_⟩, ?_,
    fun written => ?_, pairs.imp fun follows left => ?_⟩
  · rw [queued, split, List.append_assoc _ later]
  · rw [queued, split, ends may, List.append_nil]
  · rw [List.flatMap_assoc]
    exact run.ledger_front (hand_ledger connection) valid empty
  · rw [List.flatMap_assoc]
    exact (run.ledger_empty (hand_ledger connection) valid empty written).symm
  · exact Classical.byContradiction fun hands => left (follows (mayTake_of_handed hands))

/-- A write that succeeds, one that fails, and a transaction that is dropped behind it. -/
def droppedBehind : List ClientLabel :=
  List.flatten [[.mantain, .connect (.connected 7 shortPeer)], List.replicate 9 .mantain,
    [.trySend (.bytes [0] none), .trySend (.bytes [1] none), .trySend (.bytes [2] none),
      .write true, .write true, .write true, .write false, .write true]]

/-- The trace of `droppedBehind`. -/
def droppedTrace : List (ClientState × ClientLabel) :=
  clientMachine.traceOf (.start false) droppedBehind

/-- Three messages go in, and the one connection writes a part of them. -/
theorem droppedTrace_written :
    ∃ state, clientMachine.Run (.start false) droppedTrace state ∧
      (droppedTrace.flatMap enqueued).length = 3 ∧
      droppedTrace.flatMap (handedOver 1) = [0, 1] ∧ ClientWrites droppedTrace state 1 := by
  obtain ⟨state, run, -⟩ := @Machine.run_of_exec_any _ _ clientMachine (.start false)
    droppedBehind (fun _ => true) (by decide)
  exact ⟨state, run, by decide, by decide, client_writes run 1⟩

end H2l
