import H2l.Client.Protocol
import H2l.Client.Reconnect
import H2l.Link.Preface

/-!
# What user code is told of each connection

The closure of a client is called with every message of the incoming channel, once and in
the order in which they were put there. Of each connection it is told the settings that the
handshake read, and behind them the frames of its peer as far as the read loop takes them.
-/

namespace H2l

open Base

/-- The frames among messages that are about one connection. -/
def framesFor (connection : Nat) (messages : List ClientMessage) : List Frame :=
  messages.filterMap fun message =>
    if message.connection = connection then message.body.carried else none

/-- The frames among events. -/
def framesIn (events : List ClientEvent) : List Frame :=
  events.filterMap fun event => event.body.carried

/-- The settings that the handshake read, and the frames that follow. -/
def Session.frames (session : Session) : List Frame :=
  .settings session.settings :: Loop.values (Client.frameLoop session.input)

/-- The messages that the user's closure has been called with. -/
def ClientState.told (state : ClientState) : List ClientMessage :=
  state.consumed.take state.callbacks.length

/-- What the forward loop received and what is queued for it, none of which was told yet. -/
def ClientState.untold (state : ClientState) : List ClientMessage :=
  state.forward.message.toList ++ state.incoming.items

/-- What the user's closure is told. -/
structure ClientTold (trace : List (ClientState × ClientLabel)) (state : ClientState) : Prop where
  calls : state.callbacks = state.told.map ClientMessage.body
  /-- Everything that was sent is told once and in order, or is not told yet. -/
  once : (sentLog trace).map Posted.message = state.told ++ state.untold
  /-- No connection is told of once a later one was. -/
  grouped : state.told.Pairwise fun earlier later => earlier.connection ≤ later.connection
  frames : ∀ index handshake, (handshakes trace)[index]? = some handshake →
    framesFor (index + 1) state.told <+: handshake.session.frames
  /-- A read loop that ends without unwinding leaves nothing out. -/
  whole : ∀ index handshake, (handshakes trace)[index]? = some handshake →
    state.readEnded (index + 1) → (index + 1 = state.connections → state.unwound = false) →
    framesFor (index + 1) state.untold = [] →
      framesFor (index + 1) state.told = handshake.session.frames

/-- What the forward loop received is told, but for the message in its hand. -/
structure ToldInv (state : ClientState) : Prop where
  consumed : state.told ++ state.forward.message.toList = state.consumed
  calls : state.callbacks = state.told.map ClientMessage.body

variable {state after : ClientState} {label : ClientLabel}
  {trace : List (ClientState × ClientLabel)} {handshake : Handshake}

/-- The messages behind the calls are the ones that were told. -/
theorem toldInv_of_split {told : List ClientMessage}
    (consumed : told ++ state.forward.message.toList = state.consumed)
    (calls : state.callbacks = told.map ClientMessage.body) : ToldInv state := by
  have is : state.told = told := by
    rw [ClientState.told, calls, List.length_map, ← consumed, List.take_left]
  exact ⟨by rw [is, consumed], by rw [is, calls]⟩

/-- The forward loop keeps a message in its hand unless it leaves. -/
theorem onClientChanged_keeps {message : ClientMessage}
    (stays : ClientState.onClientChanged message ≠ .exited) :
    (ClientState.onClientChanged message).message = some message := by
  unfold ClientState.onClientChanged at stays ⊢
  split
  next body =>
    rw [body] at stays
    split
    next exits => exact absurd (if_pos exits) stays
    next => split <;> rfl
  next => rfl

/-- The forward loop keeps it: what it lets go of has been told. -/
theorem told_of_clientForward (quiet : QuietInv state) (inv : ToldInv state)
    (move : ClientForwardMove state after) : ToldInv after := by
  have consumed := inv.consumed
  cases move with
  | received pc receives =>
      rw [pc] at consumed
      refine toldInv_of_split ?_ inv.calls
      rw [← consumed]
      exact congrArg (· ++ _) (List.append_nil _).symm
  | @handled message pc =>
      rw [pc] at consumed
      have silent := quiet.handling message (by simp [pc, ClientForwardPc.current])
      refine toldInv_of_split ?_ inv.calls
      rw [onClientChanged_keeps (onClientChanged_quiet silent).1]
      exact consumed
  | loadedFlags pc | loadedToken pc | notified pc =>
      rw [pc] at consumed
      exact toldInv_of_split consumed inv.calls
  | called pc =>
      rw [pc] at consumed
      refine toldInv_of_split ((List.append_nil _).trans consumed) ?_
      rw [List.map_append, ← inv.calls]
      rfl

/-- Every move keeps the account of what was told. -/
theorem told_of_move (quiet : QuietInv state) (inv : ToldInv state)
    (move : ClientMove state label after) : ToldInv after := by
  have kept : after.forward = state.forward → after.consumed = state.consumed →
      after.callbacks = state.callbacks → ToldInv after := by
    intro forward consumed calls
    have split : state.told ++ after.forward.message.toList = after.consumed := by
      rw [forward, consumed, inv.consumed]
    exact toldInv_of_split split (calls.trans inv.calls)
  cases move with
  | forwarded move => exact told_of_clientForward quiet inv move
  | joinedForward _ exited => exact absurd exited quiet.forward
  | mantained move => exact kept move.frame.forward move.frame.consumed move.frame.callbacks
  | read move | shutSocket move =>
      exact kept move.frame.forward move.frame.consumed move.frame.callbacks
  | wrote move => exact kept move.frame.forward move.frame.consumed move.frame.callbacks
  | _ => exact kept rfl rfl rfl

/-- In every reachable state what was consumed is told, or in the loop's hand. -/
theorem told_of_reachable (reachable : clientMachine.Reachable state) : ToldInv state := by
  obtain ⟨_, trace, ⟨autoReconnect, rfl⟩, run⟩ := reachable
  refine @Machine.Run.traceInvariant _ _ _ (fun _ state => ToldInv state) _ _ _ run
    ⟨rfl, rfl⟩ ?_
  intro trace before label after prior inv taken
  have reachable : clientMachine.Reachable before := ⟨_, _, ⟨autoReconnect, rfl⟩, prior⟩
  exact told_of_move (quiet_of_reachable reachable) inv (ClientState.move_of_step taken)

/-- The frames of a connection in two stretches of a log. -/
theorem framesFor_append (connection : Nat) (first second : List ClientMessage) :
    framesFor connection (first ++ second) =
      framesFor connection first ++ framesFor connection second :=
  List.filterMap_append

/-- The frames for a connection are those of its events. -/
theorem framesFor_log (connection : Nat) (log : List Posted) :
    framesFor connection (log.map Posted.message) = framesIn (eventsOf connection log) := by
  induction log with
  | nil => rfl
  | cons posted rest ih =>
      rw [List.map_cons, ← List.singleton_append, framesFor_append, ih]
      by_cases own : posted.message.connection = connection
      · cases carries : posted.message.body.carried with
        | none => simp [framesFor, framesIn, eventsOf, own, carries]
        | some brought => simp [framesFor, framesIn, eventsOf, own, carries]
      · simp [framesFor, framesIn, eventsOf, own]

/-- The frames among events that come in two stretches. -/
theorem framesIn_append (first second : List ClientEvent) :
    framesIn (first ++ second) = framesIn first ++ framesIn second :=
  List.filterMap_append

/-- Of two loops one of which sends no frames, the frames are those of the other. -/
theorem framesIn_loops {sent : List ClientEvent}
    (loops : ∀ event ∈ sent, event.task = .readLoop ∨ event.task = .writeLoop)
    (written : ∀ body ∈ sentBy .writeLoop sent, body.carried = none) :
    framesIn sent = (sentBy .readLoop sent).filterMap Transaction.carried := by
  induction sent with
  | nil => rfl
  | cons event rest ih =>
      obtain ⟨task, body⟩ := event
      have others := ih fun other member => loops other (List.mem_cons_of_mem _ member)
      rcases loops _ List.mem_cons_self with rfl | rfl
      · have further := others written
        cases carries : body.carried with
        | none => simpa [framesIn, sentBy, carries] using further
        | some brought => simpa [framesIn, sentBy, carries] using further
      · have further := others fun body member => written body (List.mem_cons_of_mem _ member)
        have silent : body.carried = none := written body List.mem_cons_self
        simpa [framesIn, sentBy, silent] using further

/-- Frames of a connection, and an exit message behind them. -/
theorem carried_frames (handshake : Handshake) (flags : ClientFlags) (token : Token) :
    (handshake.frames ++ [Transaction.clientChanged flags token]).filterMap
        Transaction.carried =
      Loop.values (Client.frameLoop handshake.session.input) := by
  simp [Handshake.frames, Handshake.named, Transaction.carried, Function.comp_def]

/-- What a connection sends before its loops run brings its settings. -/
theorem framesIn_opening (handshake : Handshake) (flags : ClientFlags) (sent : List ClientEvent) :
    framesIn (handshake.opening flags ++ sent) =
      .settings handshake.session.settings :: framesIn sent :=
  framesIn_append _ _

/-- A whole connection brings all its frames. -/
theorem framesIn_whole {events : List ClientEvent} (whole : ConnectionEvents handshake events) :
    framesIn events = handshake.session.frames := by
  cases whole with
  | @whole flags readFlags writeFlags rest newly reads writes loops =>
      have silent : ∀ body ∈ sentBy .writeLoop rest, body.carried = none := by
        rw [writes]
        intro body member
        obtain rfl := List.mem_singleton.mp member
        rfl
      rw [framesIn_opening, framesIn_loops loops silent, reads, carried_frames]
      rfl

/-- An exit sequence brings no frames. -/
theorem ExitSent.silent {token : Token} {pc : ClientExitPc} {sent : List Transaction}
    (exit : ExitSent token pc sent) : ∀ body ∈ sent, body.carried = none := by
  intro body member
  cases exit with
  | pending => exact absurd member List.not_mem_nil
  | finished =>
      obtain rfl := List.mem_singleton.mp member
      rfl

/-- A connection whose read loop has finished has brought all its frames. -/
theorem framesIn_of_ended {events : List ClientEvent}
    (current : Current state (some handshake) events) (closed : state.mantain.opens = false)
    (ended : ∀ pc ∈ state.reader, pc.ended) (within : state.unwound = false) :
    framesIn events = handshake.session.frames := by
  obtain ⟨flags, sent, -, rfl, runs⟩ := current.running_of_closed closed
  have reads := runs.read_of_ended within ended
  rw [framesIn_opening, framesIn_loops runs.loops runs.writes.silent]
  generalize sentBy .readLoop sent = delivered at reads
  cases reads with
  | closing exit =>
      cases exit with
      | pending runs => exact absurd rfl runs
      | finished => rw [carried_frames]; rfl

/-- What is told and what is not told yet is what was sent. -/
theorem sent_split {autoReconnect : Bool}
    (run : clientMachine.Run (.start autoReconnect) trace state) :
    (sentLog trace).map Posted.message = state.told ++ state.untold := by
  have inv := told_of_reachable ⟨_, _, ⟨autoReconnect, rfl⟩, run⟩
  rw [sentLog_history run, ClientState.history, ← inv.consumed, ClientState.untold,
    List.append_assoc]

/-- The frames of a connection so far are the first of its frames. -/
theorem frames_of_clientRun {autoReconnect : Bool}
    (run : clientMachine.Run (.start autoReconnect) trace state) {index : Nat}
    (found : (handshakes trace)[index]? = some handshake) :
    framesFor (index + 1) (state.told ++ state.untold) <+: handshake.session.frames := by
  rw [← sent_split run, framesFor_log]
  rcases (events_of_run run).find found with ⟨-, whole⟩ | ⟨-, current⟩
  · exact framesIn_whole whole ▸ List.prefix_rfl
  · obtain ⟨further, whole⟩ := current.completes
    rw [← framesIn_whole whole, framesIn_append]
    exact List.prefix_append _ _

/-- The frames of a connection whose read loop has finished are all there. -/
theorem frames_of_ended {autoReconnect : Bool}
    (run : clientMachine.Run (.start autoReconnect) trace state) {index : Nat}
    (found : (handshakes trace)[index]? = some handshake) (ended : state.readEnded (index + 1))
    (within : index + 1 = state.connections → state.unwound = false) :
    framesFor (index + 1) (state.told ++ state.untold) = handshake.session.frames := by
  rw [← sent_split run, framesFor_log]
  rcases (events_of_run run).find found with ⟨-, whole⟩ | ⟨last, current⟩
  · exact framesIn_whole whole
  · obtain ⟨closed, ended⟩ := ended.resolve_left (by omega)
    exact framesIn_of_ended current closed ended (within last)

/-- In every run the user's closure is told of everything once and in order: of each connection
the settings of its handshake and then the frames of its peer. -/
theorem client_told {autoReconnect : Bool}
    (run : clientMachine.Run (.start autoReconnect) trace state) : ClientTold trace state where
  calls := (told_of_reachable ⟨_, _, ⟨autoReconnect, rfl⟩, run⟩).calls
  once := sent_split run
  grouped := by
    have ordered : ((sentLog trace).map Posted.message).Pairwise fun earlier later =>
        earlier.connection ≤ later.connection :=
      List.pairwise_map.mpr (events_of_run run).ordered
    rw [sent_split run] at ordered
    exact (List.pairwise_append.mp ordered).1
  frames index handshake found := by
    have sofar := frames_of_clientRun run found
    rw [framesFor_append] at sofar
    exact (List.prefix_append _ _).trans sofar
  whole index handshake found ended within none := by
    rw [← frames_of_ended run found ended within, framesFor_append, none, List.append_nil]

/-- A peer that answers the greeting with an empty SETTINGS frame, and sends a PING frame. -/
def pingingPeer : TcpStream :=
  ⟨Source.ofContent [0, 0, 0, 4, 0, 0, 0, 0, 0, 0, 0, 8, 6, 0, 0, 0, 0, 0, 1, 2, 3, 4, 5, 6, 7, 8]
    none, 2, []⟩

/-- A connection whose peer pings and closes, as far as the end of the read loop, with everything
that it sent told to user code. -/
def pinging : List ClientLabel :=
  List.flatten [[.mantain, .connect (.connected 7 pingingPeer)], List.replicate 9 .mantain,
    List.replicate 4 .read, [.shutSocket true], List.replicate 5 .read,
    List.replicate 15 .forward]

/-- The trace of `pinging`. -/
def pingingTrace : List (ClientState × ClientLabel) :=
  clientMachine.traceOf (.start false) pinging

/-- Two frames of one connection reach the application. -/
theorem pingingTrace_told :
    ∃ state, clientMachine.Run (.start false) pingingTrace state ∧
      (framesFor 1 state.told).length = 2 ∧ ClientTold pingingTrace state := by
  obtain ⟨state, run, two⟩ := @Machine.run_of_exec_any _ _ clientMachine (.start false)
    pinging (fun state => (framesFor 1 state.told).length == 2) (by decide)
  exact ⟨state, run, by simpa using two, client_told run⟩

end H2l
