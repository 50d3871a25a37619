import H2l.Server.Tokens

/-!
# What one loop of a link does in a step

`LinkMove` lists what can happen to a link, whoever does it. Here the loops are kept
apart: `ReadTurn` and `WriteTurn` say what a step of the read loop and one of the write
loop do, with what decided it, and `loop_turn` finds them in every step of a server.
-/

namespace H2l

open Base

/-- A step of `Link::read_loop`, and what it puts on the shared channel. -/
inductive ReadTurn (parse : HttpParser) (link : LinkState) :
    LinkState → Option Transaction → Prop where
  | shaken {stream} (pc : link.reader = .handshaking stream)
      (calm : ∀ cause, (Link.handshake parse stream).1 ≠ .panic cause) :
      ReadTurn parse link
        { link with reader := .reading (Link.handshake parse stream).2.input } none
  | shakeUnwound {stream cause} (pc : link.reader = .handshaking stream)
      (unwinds : (Link.handshake parse stream).1 = .panic cause) :
      ReadTurn parse link { link with reader := .panicked } none
  | fetched {input frame rest} (pc : link.reader = .reading input)
      (reads : Link.readFrame input = (.ok frame, rest)) :
      ReadTurn parse link { link with reader := .delivering frame rest } none
  | ended {input error rest} (pc : link.reader = .reading input)
      (reads : Link.readFrame input = (.err error, rest)) :
      ReadTurn parse link { link with reader := .closing .load } none
  | unwound {input cause rest} (pc : link.reader = .reading input)
      (reads : Link.readFrame input = (.panic cause, rest)) :
      ReadTurn parse link { link with reader := .panicked } none
  | delivered {frame rest} (pc : link.reader = .delivering frame rest) :
      ReadTurn parse link { link with reader := .reading rest }
        (some (.frame frame (some link.token)))
  | exits {pc next word message} (place : link.reader = .closing pc)
      (advances : pc.advance .reader link.word = some (next, word, message)) :
      ReadTurn parse link { link with word, reader := .closing next }
        (message.map fun flags => .linkChanged flags link.token)

/-- A step of `Link::write_loop`, and what it puts on the shared channel. -/
inductive WriteTurn (link : LinkState) (written : Bool) :
    LinkState → Option Transaction → Prop where
  | received {tr outgoing} (pc : link.writer = .receiving)
      (receives : link.outgoing.recv = some (tr, outgoing)) :
      WriteTurn link written { link with outgoing, writer := .received tr } none
  | wrote {tr} (pc : link.writer = .writing tr) (done : written || tr.emitted.isEmpty) :
      WriteTurn link written { link with writer := .receiving } none
  | failed {tr} (pc : link.writer = .writing tr) (fails : (written || tr.emitted.isEmpty) = false) :
      WriteTurn link written { link with writer := .closing .load } none
  | exits {pc next word message} (place : link.writer = .closing pc)
      (advances : pc.advance .writer link.word = some (next, word, message)) :
      WriteTurn link written { link with word, writer := .closing next }
        (message.map fun flags => .linkChanged flags link.token)

/-- A loop takes its step, and its message is at the end of the shared channel. -/
inductive LoopTurn (parse : HttpParser) (state : ServerState) : ServerLabel → ServerState → Prop
    where
  | read {ref link next sent channel} (found : state.link ref = some link)
      (turn : ReadTurn parse link next sent)
      (items : channel.items =
        state.channel.items ++ (sent.map fun body => ⟨body, some ref⟩).toList) :
      LoopTurn parse state (.read ref)
        { state with created := state.created.set ref.index next, channel }
  | wrote {ref written link next sent channel} (found : state.link ref = some link)
      (turn : WriteTurn link written next sent)
      (items : channel.items =
        state.channel.items ++ (sent.map fun body => ⟨body, some ref⟩).toList) :
      LoopTurn parse state (.write ref written)
        { state with created := state.created.set ref.index next, channel }

variable {parse : HttpParser} {state after : ServerState}

/-- The message of an exit sequence, if it has one, goes to the shared channel. -/
theorem exitStep_eq {ref : LinkRef} {next : LinkState} {message : Option LinkFlags}
    (steps : state.exitStep ref next message = some after) :
    ∃ channel, after = { state with created := state.created.set ref.index next, channel } ∧
      channel.items = state.channel.items ++
        ((message.map fun flags => Transaction.linkChanged flags next.token).map
          fun body => ⟨body, some ref⟩).toList := by
  cases message with
  | none =>
      cases steps
      exact ⟨state.channel, rfl, (List.append_nil _).symm⟩
  | some flags =>
      simp only [ServerState.exitStep, Option.map_eq_some_iff] at steps
      obtain ⟨sent, enqueues, rfl⟩ := steps
      obtain ⟨channel, rfl, items⟩ := enqueue_eq enqueues
      exact ⟨channel, rfl, items⟩

/-- A step of a read loop is one of its turns. -/
theorem loop_turn_read {ref : LinkRef} {link : LinkState} (found : state.link ref = some link)
    (steps : state.readStep parse ref link = some after) :
    LoopTurn parse state (.read ref) after := by
  have quiet : ∀ {next}, ReadTurn parse link next none →
      LoopTurn parse state (.read ref) (state.setLink ref next) := fun turn =>
    .read found turn (List.append_nil _).symm
  unfold ServerState.readStep at steps
  split at steps
  next stream pc =>
    split at steps
    next cause final shakes =>
      cases steps
      exact quiet (.shakeUnwound pc (congrArg Prod.fst shakes))
    next outcome final calm shakes =>
      cases steps
      have left : final = (Link.handshake parse stream).2 := (congrArg Prod.snd shakes).symm
      subst left
      refine quiet (.shaken pc fun cause unwinds => calm cause ?_)
      rw [← unwinds, shakes]
  next input pc =>
    split at steps
    next frame rest reads =>
      cases steps
      exact quiet (.fetched pc reads)
    next error rest reads =>
      cases steps
      exact quiet (.ended pc reads)
    next cause rest reads =>
      cases steps
      exact quiet (.unwound pc reads)
  next frame rest pc =>
    simp only [Option.map_eq_some_iff] at steps
    obtain ⟨sent, enqueues, rfl⟩ := steps
    obtain ⟨channel, rfl, items⟩ := enqueue_eq enqueues
    exact .read found (.delivered pc) items
  next pc place =>
    simp only [Option.bind_eq_some_iff] at steps
    obtain ⟨⟨next, word, message⟩, advances, exits⟩ := steps
    obtain ⟨channel, rfl, items⟩ := exitStep_eq exits
    exact .read found (.exits place advances) items
  next => cases steps

/-- A step of a write loop is one of its turns. -/
theorem loop_turn_write {ref : LinkRef} {written : Bool} {link : LinkState}
    (found : state.link ref = some link) (steps : state.writeStep ref written link = some after) :
    LoopTurn parse state (.write ref written) after := by
  have quiet : ∀ {next}, WriteTurn link written next none →
      LoopTurn parse state (.write ref written) (state.setLink ref next) := fun turn =>
    .wrote found turn (List.append_nil _).symm
  unfold ServerState.writeStep at steps
  split at steps
  next pc =>
    simp only [Option.map_eq_some_iff] at steps
    obtain ⟨⟨tr, outgoing⟩, receives, rfl⟩ := steps
    exact quiet (.received pc receives)
  next tr pc =>
    split at steps
    next done =>
      cases steps
      exact quiet (.wrote pc done)
    next fails =>
      cases steps
      exact quiet (.failed pc (by simpa using fails))
  next pc place =>
    simp only [Option.bind_eq_some_iff] at steps
    obtain ⟨⟨next, word, message⟩, advances, exits⟩ := steps
    obtain ⟨channel, rfl, items⟩ := exitStep_eq exits
    exact .wrote found (.exits place advances) items

/-- Every step of a link's loop. -/
theorem loop_turn {label : ServerLabel} {ref : LinkRef} (mover : label.loopOf = some ref)
    (taken : (serverMachine parse).step state label = some after) :
    LoopTurn parse state label after := by
  cases label with
  | read ref =>
      simp only [serverMachine, ServerState.step, Option.bind_eq_some_iff] at taken
      obtain ⟨link, found, steps⟩ := taken
      exact loop_turn_read found steps
  | write ref written =>
      simp only [serverMachine, ServerState.step, Option.bind_eq_some_iff] at taken
      obtain ⟨link, found, steps⟩ := taken
      exact loop_turn_write found steps
  | _ => cases mover

theorem read_turn {ref : LinkRef}
    (taken : (serverMachine parse).step state (.read ref) = some after) :
    ∃ link next sent, state.link ref = some link ∧ ReadTurn parse link next sent ∧
      after.created = state.created.set ref.index next := by
  cases loop_turn rfl taken with
  | read found turn items => exact ⟨_, _, _, found, turn, rfl⟩

theorem write_turn {ref : LinkRef} {written : Bool}
    (taken : (serverMachine parse).step state (.write ref written) = some after) :
    ∃ link next sent, state.link ref = some link ∧ WriteTurn link written next sent ∧
      after.created = state.created.set ref.index next := by
  cases loop_turn rfl taken with
  | wrote found turn items => exact ⟨_, _, _, found, turn, rfl⟩

/-- The message that the forward loop handles is the last one that it received. -/
theorem last_of_handling (reachable : (serverMachine parse).Reachable state) {message : Message}
    (pc : state.forward = .handling message) : state.consumed.getLast? = some message := by
  obtain ⟨start, trace, rfl, run⟩ := reachable
  obtain ⟨earlier, applied⟩ := (tokenInv_of_run run).applied
  have consumed := applied.consumed
  rw [pc, ForwardPc.current] at consumed
  rw [consumed, List.getLast?_concat]

/-- An acknowledgement is for the last message that was received. -/
theorem last_of_acknowledging (reachable : (serverMachine parse).Reachable state)
    {token : Option Token} (pc : state.forward = .acknowledging token) :
    ∃ message, state.consumed.getLast? = some message ∧
      message.body.lookup = some (token.getD ⟨0⟩) := by
  obtain ⟨start, trace, rfl, run⟩ := reachable
  obtain ⟨earlier, applied⟩ := (tokenInv_of_run run).applied
  have consumed := applied.consumed
  rw [pc, current_acknowledging, List.append_nil] at consumed
  obtain ⟨message, last, looked⟩ := applied.acknowledging token pc
  exact ⟨message, consumed ▸ last, looked⟩

end H2l
