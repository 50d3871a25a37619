import H2l.Client.Log
import H2l.Wire.Panic

/-!
# The events of a connection

`ConnectionEvents` says what a whole connection puts on the incoming channel. `Current`
is what the current connection has put there so far, read off from where the tasks stand;
`adds_of_move` carries it over every step.
-/

namespace H2l

open Base

/-- A handshake that completed, with the token of its connection. -/
structure Handshake where
  token : Nat
  session : Session

/-- The body of a message, and the task that sent it. -/
structure ClientEvent where
  task : ClientTask
  body : Transaction
deriving DecidableEq

namespace Handshake

/-- Frames that were read from the connection, as messages. -/
def named (handshake : Handshake) (frames : List Frame) : List Transaction :=
  frames.map fun frame => .frame frame (some ⟨handshake.token⟩)

/-- What the read loop delivers of the connection. -/
def frames (handshake : Handshake) : List Transaction :=
  handshake.named (Loop.values (Client.frameLoop handshake.session.input))

/-- What the maintenance loop sends before it starts the loops. -/
def opening (handshake : Handshake) (flags : ClientFlags) : List ClientEvent :=
  [⟨.mantainLoop, .clientChanged flags ⟨handshake.token⟩⟩,
    ⟨.mantainLoop, .frame (.settings handshake.session.settings) (some ⟨handshake.token⟩)⟩]

end Handshake

/-- What one task sent. -/
def sentBy (task : ClientTask) (events : List ClientEvent) : List Transaction :=
  events.filterMap fun event => if event.task = task then some event.body else none

/-- The events of a whole connection: one that is newly handshaked, the settings, and then what
the loops sent, in any order between them: the read loop its frames and one exit message, the
write loop one exit message. All carry the token of the connection, and no exit message is newly
handshaked. -/
inductive ConnectionEvents (handshake : Handshake) : List ClientEvent → Prop where
  | whole {flags readFlags writeFlags : ClientFlags} {rest : List ClientEvent}
      (newly : flags.isNewlyHandshaked)
      (reads : sentBy .readLoop rest =
        handshake.frames ++ [.clientChanged readFlags ⟨handshake.token⟩])
      (writes : sentBy .writeLoop rest = [.clientChanged writeFlags ⟨handshake.token⟩])
      (loops : ∀ event ∈ rest, event.task = .readLoop ∨ event.task = .writeLoop)
      (readExit : readFlags.isNewlyHandshaked = false)
      (writeExit : writeFlags.isNewlyHandshaked = false) :
      ConnectionEvents handshake (handshake.opening flags ++ rest)

/-- The token that an exit sequence has loaded. -/
def ClientExitPc.token : ClientExitPc → Option Token
  | announce _ token => some token
  | _ => none

/-- What an exit sequence has sent. -/
inductive ExitSent (token : Token) : ClientExitPc → List Transaction → Prop where
  | pending {pc} (runs : pc ≠ .finished) (loaded : ∀ name ∈ pc.token, name = token) :
      ExitSent token pc []
  | finished {flags} (late : flags.isNewlyHandshaked = false) :
      ExitSent token .finished [.clientChanged flags token]

/-- What a read loop has sent. -/
inductive ReaderSent (handshake : Handshake) : ClientReaderPc → List Transaction → Prop where
  | reading {input sent}
      (splits : sent ++ handshake.named (Loop.values (Client.frameLoop input)) = handshake.frames) :
      ReaderSent handshake (.reading input) sent
  | naming {frame rest sent}
      (splits : sent ++ handshake.named (frame :: Loop.values (Client.frameLoop rest)) =
        handshake.frames) :
      ReaderSent handshake (.naming frame rest) sent
  | delivering {frame rest sent}
      (splits : sent ++ handshake.named (frame :: Loop.values (Client.frameLoop rest)) =
        handshake.frames) :
      ReaderSent handshake (.delivering frame ⟨handshake.token⟩ rest) sent
  | shutting : ReaderSent handshake .shutting handshake.frames
  | closing {pc exits} (exit : ExitSent ⟨handshake.token⟩ pc exits) :
      ReaderSent handshake (.closing pc) (handshake.frames ++ exits)
  | panicked {sent rest} (splits : sent ++ rest = handshake.frames) :
      ReaderSent handshake .panicked sent

/-- Where the maintenance loop stands before it starts the loops, and what it has sent. -/
inductive Opening (handshake : Handshake) (rawToken : Nat) : MantainPc → List ClientEvent → Prop
    where
  | storeToken : Opening handshake rawToken (.storeToken handshake.token handshake.session) []
  | handshakedLoad (token : rawToken = handshake.token) :
      Opening handshake rawToken (.handshakedLoad handshake.session) []
  | handshakedStore {loaded} (token : rawToken = handshake.token) :
      Opening handshake rawToken (.handshakedStore loaded handshake.session) []
  | loadFlags (token : rawToken = handshake.token) :
      Opening handshake rawToken (.loadFlags handshake.session) []
  | loadToken {flags} (token : rawToken = handshake.token) :
      Opening handshake rawToken (.loadToken flags handshake.session) []
  | announce {flags} (token : rawToken = handshake.token) :
      Opening handshake rawToken (.announce flags ⟨handshake.token⟩ handshake.session) []
  | loadSettingsToken {flags} (token : rawToken = handshake.token)
      (newly : flags.isNewlyHandshaked) :
      Opening handshake rawToken (.loadSettingsToken handshake.session)
        ((handshake.opening flags).take 1)
  | sendSettings {flags} (token : rawToken = handshake.token) (newly : flags.isNewlyHandshaked) :
      Opening handshake rawToken (.sendSettings ⟨handshake.token⟩ handshake.session)
        ((handshake.opening flags).take 1)
  | spawn {flags} (token : rawToken = handshake.token) (newly : flags.isNewlyHandshaked) :
      Opening handshake rawToken (.spawn handshake.session.input) (handshake.opening flags)

/-- What the loops of a connection have sent; a loop that is gone has finished. -/
structure Running (state : ClientState) (handshake : Handshake) (sent : List ClientEvent) :
    Prop where
  closed : state.mantain.opens = false
  reads : ReaderSent handshake (state.reader.getD (.closing .finished)) (sentBy .readLoop sent)
  writes : ExitSent ⟨handshake.token⟩ (state.writer.getD (.closing .finished)).exit
    (sentBy .writeLoop sent)
  loops : ∀ event ∈ sent, event.task = .readLoop ∨ event.task = .writeLoop
  token : state.reader.isSome → state.rawToken = handshake.token

/-- What the current connection has sent, from where the tasks stand. -/
inductive Current (state : ClientState) : Option Handshake → List ClientEvent → Prop where
  /-- No handshake has completed yet. -/
  | idle (closed : state.mantain.opens = false)
      (loops : state.reader = none ∧ state.writer = none) : Current state none []
  | opening {handshake events} (opens : Opening handshake state.rawToken state.mantain events) :
      Current state (some handshake) events
  | running {handshake flags sent} (newly : flags.isNewlyHandshaked)
      (runs : Running state handshake sent) :
      Current state (some handshake) (handshake.opening flags ++ sent)

/-- The event of a newly handshaked connection is still to be sent. -/
def MantainPc.announces : MantainPc → Bool
  | storeToken _ _ | handshakedLoad _ | handshakedStore _ _ | loadFlags _ | loadToken _ _
  | announce _ _ _ => true
  | _ => false

/-- A message for which `is_newly_handshaked` holds. -/
def Transaction.announcesHandshake : Transaction → Bool
  | clientChanged flags _ => flags.isNewlyHandshaked
  | _ => false

variable {state after : ClientState} {label : ClientLabel} {handshake : Handshake}

/-- What a task sent in two stretches of a log is what it sent in both. -/
theorem sentBy_append (task : ClientTask) (first second : List ClientEvent) :
    sentBy task (first ++ second) = sentBy task first ++ sentBy task second :=
  List.filterMap_append

/-- What a task sent is sent by it and by no other. -/
theorem sentBy_map (task other : ClientTask) (bodies : List Transaction) :
    sentBy task (bodies.map (ClientEvent.mk other)) = if other = task then bodies else [] := by
  induction bodies with
  | nil => rw [List.map_nil, ite_self]; rfl
  | cons body rest ih =>
      rw [List.map_cons, ← List.singleton_append, sentBy_append, ih]
      by_cases same : other = task
      · simp [sentBy, same]
      · simp [sentBy, same]

/-- A step of an exit sequence. -/
theorem ExitSent.advance {token : Token} {own : ClientFlags} {pc next : ClientExitPc}
    {bits bits' : Word} {rawToken : Nat} {message : Option Transaction} {sent : List Transaction}
    (exit : ExitSent token pc sent) (named : ⟨rawToken⟩ = token)
    (told : ∀ flags ∈ pc.told, ClientFlags.Closed flags)
    (advances : pc.advance own bits rawToken = some (next, bits', message)) :
    ExitSent token next (sent ++ message.toList) := by
  cases exit with
  | finished => cases advances
  | pending runs loaded =>
      cases pc with
      | load | store | reload =>
          cases advances
          exact .pending (by simp) (by simp [ClientExitPc.token])
      | reloadToken flags =>
          cases advances
          exact .pending (by simp) fun name member => (Option.some.inj member).symm.trans named
      | announce flags name =>
          cases advances
          obtain rfl := loaded name rfl
          exact .finished (told flags (List.mem_singleton_self _)).not_newly
      | finished => cases advances

/-- A turn of the frame loop that reads a frame. -/
theorem frameLoop_values {input rest : TcpInput} {frame : Frame}
    (reads : Client.readFrame input = (.ok frame, rest)) :
    Loop.values (Client.frameLoop input) = frame :: Loop.values (Client.frameLoop rest) :=
  congrArg Loop.values (Loop.run_ok (readFrame_drains .client) reads)

/-- A turn that reads no frame is the last one. -/
theorem frameLoop_values_nil {input rest : TcpInput} {outcome : Outcome Error Frame}
    (reads : Client.readFrame input = (outcome, rest)) (silent : ∀ frame, outcome ≠ .ok frame) :
    Loop.values (Client.frameLoop input) = [] := by
  refine Loop.values_eq_nil fun frame next delivers => silent frame ?_
  exact congrArg Prod.fst (reads.symm.trans delivers)

/-- A message of an exit sequence does not announce a handshake. -/
theorem countP_of_advance {own : ClientFlags} {pc next : ClientExitPc} {bits bits' : Word}
    {rawToken : Nat} {message : Option Transaction}
    (told : ∀ flags ∈ pc.told, ClientFlags.Closed flags)
    (advances : pc.advance own bits rawToken = some (next, bits', message)) :
    message.toList.countP Transaction.announcesHandshake = 0 := by
  cases message with
  | none => rfl
  | some body =>
      obtain ⟨flags, token, rfl, -, rfl⟩ := advance_sent advances
      have late := (told flags (List.mem_singleton_self _)).not_newly
      simp [Transaction.announcesHandshake, late]

/-- A step that leaves the history as it was sends nothing. -/
theorem silent_sends {P : List Transaction → Prop} {sent : List Transaction}
    (history : after.history = state.history) (kept : P sent) :
    ∃ more : Option Transaction, after.history = state.history ++ state.tagged more ∧
      P (sent ++ more.toList) ∧ more.toList.countP Transaction.announcesHandshake = 0 := by
  refine ⟨none, ?_, ?_, rfl⟩
  · rw [history]
    exact (List.append_nil _).symm
  · rwa [Option.toList_none, List.append_nil]

/-- What the read loop sends in a step. -/
theorem ReaderSent.step {pc : ClientReaderPc} {sent : List Transaction}
    (reads : ReaderSent handshake pc sent) (place : state.reader = some pc)
    (token : state.rawToken = handshake.token)
    (told : ∀ flags ∈ pc.exit.told, ClientFlags.Closed flags)
    (move : ClientReaderMove state after) :
    ∃ next more, after.reader = some next ∧ after.history = state.history ++ state.tagged more ∧
      ReaderSent handshake next (sent ++ more.toList) ∧
      more.toList.countP Transaction.announcesHandshake = 0 := by
  have silent : ∀ {next}, after.reader = some next → after.history = state.history →
      ReaderSent handshake next sent →
      ∃ next more, after.reader = some next ∧
        after.history = state.history ++ state.tagged more ∧
        ReaderSent handshake next (sent ++ more.toList) ∧
        more.toList.countP Transaction.announcesHandshake = 0 := by
    intro next became history reads
    obtain ⟨more, sends⟩ := silent_sends history reads
    exact ⟨next, more, became, sends⟩
  cases move with
  | fetched there turn =>
      cases place.symm.trans there
      cases reads with
      | reading splits =>
          rw [frameLoop_values turn] at splits
          exact silent rfl rfl (.naming splits)
  | ended there turn =>
      cases place.symm.trans there
      cases reads with
      | reading splits =>
          rw [frameLoop_values_nil turn (by simp), Handshake.named, List.map_nil,
            List.append_nil] at splits
          exact silent rfl rfl (splits ▸ .shutting)
  | unwound there turn =>
      cases place.symm.trans there
      cases reads with
      | reading splits => exact silent rfl rfl (.panicked splits)
  | named there =>
      cases place.symm.trans there
      cases reads with
      | naming splits =>
          refine silent rfl rfl ?_
          rw [token]
          exact .delivering splits
  | delivered there sends =>
      cases place.symm.trans there
      cases reads with
      | delivering splits =>
          refine ⟨_, _, rfl, history_of_sends sends, .reading ?_, rfl⟩
          rw [List.append_assoc]
          exact splits
  | shut there =>
      cases place.symm.trans there
      cases reads with
      | shutting =>
          refine silent rfl rfl ?_
          have begins : ReaderSent handshake (.closing .load) (handshake.frames ++ []) :=
            .closing (.pending (by simp) (by simp [ClientExitPc.token]))
          rwa [List.append_nil] at begins
  | shutUnwound there =>
      cases place.symm.trans there
      cases reads with
      | shutting => exact silent rfl rfl (.panicked (List.append_nil _))
  | exits there advances sends =>
      cases place.symm.trans there
      cases reads with
      | closing exit =>
          refine ⟨_, _, rfl, history_of_sends sends, ?_, countP_of_advance told advances⟩
          rw [List.append_assoc]
          exact .closing (exit.advance (congrArg Token.mk token) told advances)

/-- What the write loop sends in a step. -/
theorem ExitSent.step {pc : ClientWriterPc} {token : Token} {sent : List Transaction}
    (writes : ExitSent token pc.exit sent) (place : state.writer = some pc)
    (named : ⟨state.rawToken⟩ = token)
    (told : ∀ flags ∈ pc.exit.told, ClientFlags.Closed flags)
    (move : ClientWriterMove state after) :
    ∃ next more, after.writer = some next ∧ after.history = state.history ++ state.tagged more ∧
      ExitSent token next.exit (sent ++ more.toList) ∧
      more.toList.countP Transaction.announcesHandshake = 0 := by
  have silent : ∀ {next : ClientWriterPc}, after.writer = some next →
      after.history = state.history → next.exit = pc.exit →
      ∃ next more, after.writer = some next ∧
        after.history = state.history ++ state.tagged more ∧
        ExitSent token next.exit (sent ++ more.toList) ∧
        more.toList.countP Transaction.announcesHandshake = 0 := by
    intro next became history same
    obtain ⟨more, sends⟩ := silent_sends history (same ▸ writes)
    exact ⟨next, more, became, sends⟩
  cases move with
  | received there =>
      cases place.symm.trans there
      exact silent rfl rfl (exit_received _)
  | wrote there | failed there | flushed there =>
      cases place.symm.trans there
      exact silent rfl rfl rfl
  | discarded => exact silent place rfl rfl
  | exits there advances sends =>
      cases place.symm.trans there
      exact ⟨_, _, rfl, history_of_sends sends, writes.advance named told advances,
        countP_of_advance told advances⟩

/-- What a step adds to the events of the current connection. -/
structure Adds (state : ClientState) (label : ClientLabel) (after : ClientState)
    (handshake : Option Handshake) (events : List ClientEvent) (more : Option Transaction) :
    Prop where
  history : after.history = state.history ++ state.tagged more
  current : Current after handshake (events ++ more.toList.map (ClientEvent.mk label.task))
  counted : more.toList.countP Transaction.announcesHandshake + after.mantain.announces.toNat =
    state.mantain.announces.toNat

/-- A step that sends nothing. -/
theorem adds_none {handshake : Option Handshake} {events : List ClientEvent}
    (history : after.history = state.history) (current : Current after handshake events)
    (announces : after.mantain.announces = state.mantain.announces) :
    Adds state label after handshake events none where
  history := by
    rw [history]
    exact (List.append_nil _).symm
  current := by rwa [Option.toList_none, List.map_nil, List.append_nil]
  counted := by rw [announces]; exact Nat.zero_add _

/-- The event of a handshake is sent before the loops are spawned. -/
theorem announces_of_closed {pc : MantainPc} (closed : pc.opens = false) :
    pc.announces = false := by
  cases pc with
  | storeToken | handshakedLoad | handshakedStore | loadFlags | loadToken | announce => cases closed
  | _ => rfl

/-- The maintenance loop on its way to the loops of a connection. -/
theorem Opening.step {events : List ClientEvent} (flags : FlagsInv state)
    (opens : Opening handshake state.rawToken state.mantain events)
    (move : MantainMove state after) :
    ∃ more, Adds state .mantain after (some handshake) events more := by
  have phase := flags.mantain
  cases move with
  | storedToken pc =>
      rw [pc] at opens
      cases opens
      exact ⟨none, adds_none rfl (.opening (.handshakedLoad rfl)) (by rw [pc]; rfl)⟩
  | loadedHandshaked pc =>
      rw [pc] at opens
      cases opens with
      | handshakedLoad token =>
          exact ⟨none, adds_none rfl (.opening (.handshakedStore token)) (by rw [pc]; rfl)⟩
  | storedHandshaked pc =>
      rw [pc] at opens
      cases opens with
      | handshakedStore token =>
          exact ⟨none, adds_none rfl (.opening (.loadFlags token)) (by rw [pc]; rfl)⟩
  | loadedFlags pc =>
      rw [pc] at opens
      cases opens with
      | loadFlags token =>
          exact ⟨none, adds_none rfl (.opening (.loadToken token)) (by rw [pc]; rfl)⟩
  | loadedToken pc =>
      rw [pc] at opens
      cases opens with
      | loadToken token =>
          refine ⟨none, adds_none rfl (.opening ?_) (by rw [pc]; rfl)⟩
          rw [token]
          exact .announce rfl
  | announced pc sends =>
      rw [pc] at opens phase
      cases opens with
      | announce token =>
          refine ⟨_, history_of_sends sends, .opening (.loadSettingsToken token phase.2), ?_⟩
          simp [pc, MantainPc.announces, Transaction.announcesHandshake, phase.2]
  | loadedSettingsToken pc =>
      rw [pc] at opens
      cases opens with
      | loadSettingsToken token newly =>
          refine ⟨none, adds_none rfl (.opening ?_) (by rw [pc]; rfl)⟩
          rw [token]
          exact .sendSettings rfl newly
  | sentSettings pc sends =>
      rw [pc] at opens
      cases opens with
      | sendSettings token newly =>
          refine ⟨_, history_of_sends sends, .opening (.spawn token newly), ?_⟩
          simp [pc, MantainPc.announces, Transaction.announcesHandshake]
  | spawned pc =>
      rw [pc] at opens
      cases opens with
      | spawn token newly =>
          have begins : ExitSent ⟨handshake.token⟩ (ClientWriterPc.exit .receiving) [] :=
            .pending (by simp [ClientWriterPc.exit])
              (by simp [ClientWriterPc.exit, ClientExitPc.token])
          refine ⟨none, (List.append_nil _).symm, .running newly ?_, by rw [pc]; rfl⟩
          exact ⟨rfl, .reading (List.nil_append _), begins, by simp, fun _ => token⟩
  | _ pc =>
      rw [pc] at opens
      cases opens

/-- The forward loop only moves messages from the channel to the consumed ones. -/
theorem history_of_forward (move : ClientForwardMove state after) :
    after.history = state.history := by
  cases move with
  | received pc receives => simp [ClientState.history, Channel.recv_items receives]
  | _ => rfl

/-- Before the first handshake nothing is sent. -/
theorem adds_of_idle (quiet : QuietInv state) (closed : state.mantain.opens = false)
    (loops : state.reader = none ∧ state.writer = none) (move : ClientMove state label after)
    (same : after.connections = state.connections) :
    ∃ more, Adds state label after none [] more := by
  obtain ⟨closed', turn⟩ := turn_of_move quiet move closed same
  have announces : after.mantain.announces = state.mantain.announces := by
    rw [announces_of_closed closed, announces_of_closed closed']
  refine ⟨none, ?_⟩
  cases turn with
  | apart _ _ loops' _ history => exact adds_none history (.idle closed' loops') announces
  | read task move =>
      obtain ⟨pc, there⟩ := move.runs
      cases loops.1.symm.trans there
  | wrote task move =>
      obtain ⟨pc, there⟩ := move.runs
      cases loops.2.symm.trans there
  | forwarded move =>
      have kept := move.frame
      exact adds_none (history_of_forward move)
        (.idle closed' ⟨kept.reader.trans loops.1, kept.writer.trans loops.2⟩) announces
  | kept loops' _ _ incoming consumed =>
      exact adds_none (by rw [ClientState.history, consumed, incoming]; rfl)
        (.idle closed' ⟨loops'.1.trans loops.1, loops'.2.trans loops.2⟩) announces

/-- The messages of the task that moves. -/
theorem sentBy_mover {task : ClientTask} (sent : List ClientEvent) (more : Option Transaction)
    (moves : label.task = task) :
    sentBy task (sent ++ more.toList.map (ClientEvent.mk label.task)) =
      sentBy task sent ++ more.toList := by
  rw [sentBy_append, sentBy_map, if_pos moves]

/-- The messages of a task that does not move. -/
theorem sentBy_other {task : ClientTask} (sent : List ClientEvent) (more : Option Transaction)
    (moves : label.task ≠ task) :
    sentBy task (sent ++ more.toList.map (ClientEvent.mk label.task)) = sentBy task sent := by
  rw [sentBy_append, sentBy_map, if_neg moves, List.append_nil]

/-- One more event of a loop keeps a list of loop events such a list. -/
theorem loops_append {sent : List ClientEvent} (more : Option Transaction)
    (moves : label.task = .readLoop ∨ label.task = .writeLoop)
    (loops : ∀ event ∈ sent, event.task = .readLoop ∨ event.task = .writeLoop) :
    ∀ event ∈ sent ++ more.toList.map (ClientEvent.mk label.task),
      event.task = .readLoop ∨ event.task = .writeLoop := by
  intro event member
  rcases List.mem_append.mp member with earlier | new
  · exact loops event earlier
  · obtain ⟨body, -, rfl⟩ := List.mem_map.mp new
    exact moves

/-- The loops of a connection after a step that sends nothing and leaves them where they are. -/
theorem Running.kept {sent : List ClientEvent} (runs : Running state handshake sent)
    (closed : after.mantain.opens = false)
    (loops : after.reader = state.reader ∧ after.writer = state.writer)
    (token : after.rawToken = state.rawToken) : Running after handshake sent where
  closed := closed
  reads := by rw [loops.1]; exact runs.reads
  writes := by rw [loops.2]; exact runs.writes
  loops := runs.loops
  token some := by rw [token]; exact runs.token (loops.1 ▸ some)

/-- A place that holds nothing else yields its final state. -/
theorem getD_of_finished {α : Type} {place : Option α} {final : α}
    (ended : ∀ pc ∈ place, pc = final) : place.getD final = final := by
  cases place with
  | none => rfl
  | some pc => exact ended pc rfl

/-- Once the loops of a connection have been started. -/
theorem Running.step {flags : ClientFlags} {sent : List ClientEvent} (quiet : QuietInv state)
    (inv : FlagsInv state) (newly : flags.isNewlyHandshaked) (runs : Running state handshake sent)
    (move : ClientMove state label after) (same : after.connections = state.connections) :
    ∃ more, Adds state label after (some handshake) (handshake.opening flags ++ sent) more := by
  obtain ⟨closed, turn⟩ := turn_of_move quiet move runs.closed same
  have announces : after.mantain.announces = state.mantain.announces := by
    rw [announces_of_closed runs.closed, announces_of_closed closed]
  have counted : ∀ {more : Option Transaction},
      more.toList.countP Transaction.announcesHandshake = 0 →
      more.toList.countP Transaction.announcesHandshake + after.mantain.announces.toNat =
        state.mantain.announces.toNat := by
    intro more none
    rw [none, announces, Nat.zero_add]
  cases turn with
  | apart read written gone _ history =>
      have reads := runs.reads
      have writes := runs.writes
      rw [getD_of_finished read] at reads
      rw [getD_of_finished written] at writes
      refine ⟨none, adds_none history (.running newly ⟨closed, ?_, ?_, runs.loops, ?_⟩) announces⟩
      · rwa [gone.1]
      · rwa [gone.2]
      · simp [gone.1]
  | read task move =>
      obtain ⟨pc, there⟩ := move.runs
      have token := runs.token (by rw [there]; rfl)
      obtain ⟨writer, other⟩ := Option.isSome_iff_exists.mp (show state.writer.isSome by
        rw [← inv.paired, there]; rfl)
      have reads := runs.reads
      rw [there, Option.getD_some] at reads
      obtain ⟨next, more, became, history, sends, none⟩ :=
        reads.step there token (inv.loops pc there writer other).read.told move
      have kept := move.frame
      refine ⟨more, history, ?_, counted none⟩
      rw [List.append_assoc]
      refine .running newly ⟨closed, ?_, ?_, loops_append more (.inl task) runs.loops, ?_⟩
      · rw [became, sentBy_mover sent more task]
        exact sends
      · rw [kept.writer, sentBy_other sent more (by rw [task]; decide)]
        exact runs.writes
      · exact fun _ => kept.rawToken.trans token
  | wrote task move =>
      obtain ⟨pc, there⟩ := move.runs
      obtain ⟨reader, other⟩ := Option.isSome_iff_exists.mp (show state.reader.isSome by
        rw [inv.paired, there]; rfl)
      have token := runs.token (by rw [other]; rfl)
      have writes := runs.writes
      rw [there, Option.getD_some] at writes
      obtain ⟨next, more, became, history, sends, none⟩ := writes.step there
        (congrArg Token.mk token) (inv.loops reader other pc there).write.told move
      have kept := move.frame
      refine ⟨more, history, ?_, counted none⟩
      rw [List.append_assoc]
      refine .running newly ⟨closed, ?_, ?_, loops_append more (.inr task) runs.loops, ?_⟩
      · rw [kept.reader, sentBy_other sent more (by rw [task]; decide)]
        exact runs.reads
      · rw [became, sentBy_mover sent more task]
        exact sends
      · exact fun _ => kept.rawToken.trans token
  | forwarded move =>
      have kept := move.frame
      exact ⟨none, adds_none (history_of_forward move)
        (.running newly (runs.kept closed ⟨kept.reader, kept.writer⟩ kept.rawToken)) announces⟩
  | kept loops token _ incoming consumed =>
      exact ⟨none, adds_none (by rw [ClientState.history, consumed, incoming]; rfl)
        (.running newly (runs.kept closed loops token)) announces⟩

/-- While a connection opens, no loops are waited for. -/
theorem Opening.attends {rawToken : Nat} {pc : MantainPc} {events : List ClientEvent}
    (opens : Opening handshake rawToken pc events) : pc.attends = false := by
  cases opens <;> rfl

/-- An opening is one of the places between a handshake and the spawn of the loops. -/
theorem Opening.opens {rawToken : Nat} {pc : MantainPc} {events : List ClientEvent}
    (opens : Opening handshake rawToken pc events) : pc.opens = true := by
  cases opens <;> rfl

/-- While the maintenance loop is on its way to the loops, it is the only one to send. -/
theorem adds_of_opening {events : List ClientEvent} (quiet : QuietInv state) (inv : FlagsInv state)
    (opens : Opening handshake state.rawToken state.mantain events)
    (move : ClientMove state label after) (same : after.connections = state.connections) :
    ∃ more, Adds state label after (some handshake) events more := by
  have idle := quiet.alone opens.attends
  cases move with
  | mantained move => exact opens.step inv move
  | connected => exact absurd same (Nat.succ_ne_self _)
  | timedOut pc | failed pc | refused pc | unwound pc | waited pc =>
      rw [pc] at opens
      cases opens
  | read move | shutSocket move =>
      obtain ⟨pc, there⟩ := move.runs
      cases idle.1.symm.trans there
  | wrote move =>
      obtain ⟨pc, there⟩ := move.runs
      cases idle.2.symm.trans there
  | forwarded move =>
      have kept := move.frame
      refine ⟨none, adds_none (history_of_forward move) (.opening ?_) (by rw [kept.mantain])⟩
      rwa [kept.rawToken, kept.mantain]
  | joinedMantain | joinedForward | shutdown | queued | dropped =>
      exact ⟨none, adds_none rfl (.opening opens) rfl⟩

/-- Every step of a connection adds what its task sends. -/
theorem adds_of_move {current : Option Handshake} {events : List ClientEvent}
    (quiet : QuietInv state) (inv : FlagsInv state) (sent : Current state current events)
    (move : ClientMove state label after) (same : after.connections = state.connections) :
    ∃ more, Adds state label after current events more := by
  cases sent with
  | idle closed loops => exact adds_of_idle quiet closed loops move same
  | opening opens => exact adds_of_opening quiet inv opens move same
  | running newly runs => exact runs.step quiet inv newly move same

/-- Two loops that have finished have sent all there is to send. -/
theorem whole_of_finished {flags : ClientFlags} {sent : List ClientEvent}
    (newly : flags.isNewlyHandshaked)
    (reads : ReaderSent handshake (.closing .finished) (sentBy .readLoop sent))
    (writes : ExitSent ⟨handshake.token⟩ .finished (sentBy .writeLoop sent))
    (loops : ∀ event ∈ sent, event.task = .readLoop ∨ event.task = .writeLoop) :
    ConnectionEvents handshake (handshake.opening flags ++ sent) := by
  generalize readSent : sentBy .readLoop sent = read at reads
  generalize writeSent : sentBy .writeLoop sent = written at writes
  cases reads with
  | closing exit =>
      cases exit with
      | pending runs => exact absurd rfl runs
      | finished late =>
          cases writes with
          | pending runs => exact absurd rfl runs
          | finished late' => exact .whole newly readSent writeSent loops late late'

/-- The loops have no part in the opening of a connection. -/
theorem sentBy_opening {task : ClientTask} (flags : ClientFlags) (sent : List ClientEvent)
    (loop : task ≠ .mantainLoop) :
    sentBy task (handshake.opening flags ++ sent) = sentBy task sent := by
  have other : ClientTask.mantainLoop ≠ task := loop.symm
  simp [sentBy, Handshake.opening, other]

/-- Frames are not exit messages. -/
theorem countP_frames {sent rest : List Transaction} (splits : sent ++ rest = handshake.frames) :
    sent.countP Transaction.isClientChanged = 0 := by
  have none : handshake.frames.countP Transaction.isClientChanged = 0 := by
    simp [Handshake.frames, Handshake.named, Transaction.isClientChanged]
  rw [← splits, List.countP_append] at none
  exact Nat.eq_zero_of_add_eq_zero_right none

/-- A read loop that has finished has sent one exit message. -/
theorem countP_read {sent : List Transaction}
    (reads : ReaderSent handshake (.closing .finished) sent) :
    sent.countP Transaction.isClientChanged = 1 := by
  cases reads with
  | closing exit =>
      cases exit with
      | pending runs => exact absurd rfl runs
      | finished =>
          rw [List.countP_append, countP_frames (List.append_nil _)]
          rfl

/-- A finished write loop has told of its end once. -/
theorem countP_written {token : Token} {sent : List Transaction}
    (writes : ExitSent token .finished sent) : sent.countP Transaction.isClientChanged = 1 := by
  cases writes with
  | pending runs => exact absurd rfl runs
  | finished => rfl

/-- What a read loop has sent can be completed. -/
theorem ReaderSent.completes {pc : ClientReaderPc} {sent : List Transaction}
    (reads : ReaderSent handshake pc sent) :
    ∃ more flags, ClientFlags.isNewlyHandshaked flags = false ∧
      sent ++ more = handshake.frames ++ [.clientChanged flags ⟨handshake.token⟩] := by
  have first : ∀ rest, sent ++ rest = handshake.frames →
      ∃ more flags, ClientFlags.isNewlyHandshaked flags = false ∧
        sent ++ more = handshake.frames ++ [.clientChanged flags ⟨handshake.token⟩] := by
    intro rest splits
    refine ⟨rest ++ [.clientChanged ClientFlags.readClosed ⟨handshake.token⟩],
      ClientFlags.readClosed, by decide, ?_⟩
    rw [← List.append_assoc, splits]
  cases reads with
  | reading splits | naming splits | delivering splits | panicked splits => exact first _ splits
  | shutting => exact first [] (List.append_nil _)
  | closing exit =>
      cases exit with
      | pending => exact first [] (by simp)
      | finished late => exact ⟨[], _, late, List.append_nil _⟩

/-- Whatever part of its exit message a loop has sent, the rest makes it one message. -/
theorem ExitSent.completes {token : Token} {pc : ClientExitPc} {sent : List Transaction}
    (exit : ExitSent token pc sent) :
    ∃ more flags, ClientFlags.isNewlyHandshaked flags = false ∧
      sent ++ more = [.clientChanged flags token] := by
  cases exit with
  | pending =>
      exact ⟨[.clientChanged ClientFlags.writeClosed token], ClientFlags.writeClosed, by decide,
        rfl⟩
  | finished late => exact ⟨[], _, late, rfl⟩

/-- The events of running loops can be completed. -/
theorem whole_of_sent {flags : ClientFlags} {sent : List ClientEvent} {pc : ClientReaderPc}
    {exit : ClientExitPc} (newly : flags.isNewlyHandshaked)
    (reads : ReaderSent handshake pc (sentBy .readLoop sent))
    (writes : ExitSent ⟨handshake.token⟩ exit (sentBy .writeLoop sent))
    (loops : ∀ event ∈ sent, event.task = .readLoop ∨ event.task = .writeLoop) :
    ∃ further, ConnectionEvents handshake (handshake.opening flags ++ (sent ++ further)) := by
  obtain ⟨read, readFlags, late, allRead⟩ := reads.completes
  obtain ⟨written, writeFlags, late', allWritten⟩ := writes.completes
  refine ⟨read.map (ClientEvent.mk .readLoop) ++ written.map (ClientEvent.mk .writeLoop),
    .whole newly ?_ ?_ ?_ late late'⟩
  · rw [sentBy_append, sentBy_append, sentBy_map, sentBy_map, if_pos rfl, if_neg (by decide),
      List.append_nil, allRead]
  · rw [sentBy_append, sentBy_append, sentBy_map, sentBy_map, if_neg (by decide), if_pos rfl,
      List.nil_append, allWritten]
  · intro event member
    rcases List.mem_append.mp member with earlier | new
    · exact loops event earlier
    · rcases List.mem_append.mp new with new | new
      · obtain ⟨body, -, rfl⟩ := List.mem_map.mp new
        exact .inl rfl
      · obtain ⟨body, -, rfl⟩ := List.mem_map.mp new
        exact .inr rfl

/-- What the maintenance loop has sent are the first events of an opening. -/
theorem Opening.completes {rawToken : Nat} {pc : MantainPc} {events : List ClientEvent}
    (opens : Opening handshake rawToken pc events) :
    ∃ rest flags, ClientFlags.isNewlyHandshaked flags ∧
      events ++ rest = handshake.opening flags := by
  cases opens with
  | loadSettingsToken token newly | sendSettings token newly =>
      exact ⟨_, _, newly, List.take_append_drop 1 _⟩
  | spawn token newly => exact ⟨[], _, newly, List.append_nil _⟩
  | _ => exact ⟨_, ClientFlags.handshaked, by decide, List.nil_append _⟩

/-- The events of the current connection are the first ones of a whole connection. -/
theorem Current.completes {events : List ClientEvent}
    (current : Current state (some handshake) events) :
    ∃ further, ConnectionEvents handshake (events ++ further) := by
  cases current with
  | opening opens =>
      obtain ⟨rest, flags, newly, opening⟩ := opens.completes
      have reads : ReaderSent handshake (.reading handshake.session.input) (sentBy .readLoop []) :=
        .reading (List.nil_append _)
      have writes : ExitSent ⟨handshake.token⟩ .load (sentBy .writeLoop []) :=
        .pending (by simp) (by simp [ClientExitPc.token])
      obtain ⟨further, whole⟩ := whole_of_sent newly reads writes (by simp)
      refine ⟨rest ++ further, ?_⟩
      rw [← List.append_assoc, opening]
      exact whole
  | running newly runs =>
      obtain ⟨further, whole⟩ := whole_of_sent newly runs.reads runs.writes runs.loops
      exact ⟨further, by rwa [List.append_assoc]⟩

/-- Each loop of a whole connection has sent one exit message. -/
theorem ConnectionEvents.exits {events : List ClientEvent}
    (whole : ConnectionEvents handshake events) :
    (sentBy .readLoop events).countP Transaction.isClientChanged = 1 ∧
      (sentBy .writeLoop events).countP Transaction.isClientChanged = 1 := by
  cases whole with
  | whole newly reads writes =>
      rw [sentBy_opening _ _ (by decide), sentBy_opening _ _ (by decide), reads, writes,
        List.countP_append, countP_frames (List.append_nil _)]
      exact ⟨rfl, rfl⟩

end H2l
