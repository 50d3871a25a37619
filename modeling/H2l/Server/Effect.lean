import H2l.Server.Step

/-!
# What a step of a server can do

`LinkMove` lists everything that can happen to a link, with the message that goes
to the shared channel. `step_effect` says that a step outside the forward loop
moves one link, accepts one, posts a message of the accept loop, or leaves links
and channel alone; `forward_move` lists the steps of the forward loop, and `handle_effect` says
the same of what it does with a message.
-/

namespace H2l

open Base

/-- One change of a link, and what its loops put on the shared channel with it. -/
inductive LinkMove (parse : HttpParser) (link : LinkState) :
    LinkState → Option Transaction → Prop where
  | shaken {stream outcome final} (pc : link.reader = .handshaking stream)
      (shakes : Link.handshake parse stream = (outcome, final)) :
      LinkMove parse link { link with reader := .reading final.input } none
  | shakeUnwound {stream cause final} (pc : link.reader = .handshaking stream)
      (shakes : Link.handshake parse stream = (.panic cause, final)) :
      LinkMove parse link { link with reader := .panicked } none
  | fetched {input frame rest} (pc : link.reader = .reading input)
      (reads : Link.readFrame input = (.ok frame, rest)) :
      LinkMove parse link { link with reader := .delivering frame rest } none
  | readEnded {input error rest} (pc : link.reader = .reading input)
      (reads : Link.readFrame input = (.err error, rest)) :
      LinkMove parse link { link with reader := .closing .load } none
  | readUnwound {input cause rest} (pc : link.reader = .reading input)
      (reads : Link.readFrame input = (.panic cause, rest)) :
      LinkMove parse link { link with reader := .panicked } none
  | delivered {frame rest} (pc : link.reader = .delivering frame rest) :
      LinkMove parse link { link with reader := .reading rest }
        (some (.frame frame (some link.token)))
  | readerExits {pc next word message} (place : link.reader = .closing pc)
      (advances : pc.advance .reader link.word = some (next, word, message)) :
      LinkMove parse link { link with word, reader := .closing next }
        (message.map fun flags => .linkChanged flags link.token)
  | received {tr outgoing} (pc : link.writer = .receiving)
      (receives : link.outgoing.recv = some (tr, outgoing)) :
      LinkMove parse link { link with outgoing, writer := .received tr } none
  | wrote {tr} (pc : link.writer = .writing tr) :
      LinkMove parse link { link with writer := .receiving } none
  | writeEnded {tr} (pc : link.writer = .writing tr) (emits : tr.emitted.isEmpty = false) :
      LinkMove parse link { link with writer := .closing .load } none
  | writerExits {pc next word message} (place : link.writer = .closing pc)
      (advances : pc.advance .writer link.word = some (next, word, message)) :
      LinkMove parse link { link with word, writer := .closing next }
        (message.map fun flags => .linkChanged flags link.token)
  | queued {tr outgoing} (alive : link.writer.ended = false)
      (sends : link.outgoing.trySend tr = some outgoing) :
      LinkMove parse link { link with outgoing } none

/-- A link moves, and its message is at the end of the shared channel. -/
inductive LinkStep (parse : HttpParser) (state : ServerState) (ref : LinkRef) :
    ServerState → Prop where
  | moved {link next sent channel} (found : state.link ref = some link)
      (move : LinkMove parse link next sent)
      (items : channel.items =
        state.channel.items ++ (sent.map fun body => ⟨body, some ref⟩).toList) :
      LinkStep parse state ref
        { state with created := state.created.set ref.index next, channel }

/-- How a step changes the links and the shared channel. -/
inductive Effect (parse : HttpParser) (state : ServerState) : ServerState → Prop where
  | quiet {after} (created : after.created = state.created)
      (channel : after.channel = state.channel) : Effect parse state after
  | moved {ref stepped after} (step : LinkStep parse state ref stepped)
      (created : after.created = stepped.created) (channel : after.channel = stepped.channel) :
      Effect parse state after
  | accepted {after token stream} (created : after.created = state.created ++ [.new token stream])
      (channel : after.channel = state.channel) : Effect parse state after
  | posted {after body}
      (accept : (∃ ref, state.accept = .registering ref ∧ body = .newLink ref) ∨
        body = .serverChanged .acceptLoopExited)
      (created : after.created = state.created)
      (channel : after.channel.items = state.channel.items ++ [⟨body, none⟩]) :
      Effect parse state after

/-- What a step leaves to the forward loop alone. -/
structure ForwardKept (state after : ServerState) : Prop where
  forward : after.forward = state.forward
  consumed : after.consumed = state.consumed
  links : after.links = state.links

variable {parse : HttpParser} {state after : ServerState}

/-- A step of a link leaves the forward loop where it stands. -/
theorem LinkStep.kept {ref : LinkRef} (step : LinkStep parse state ref after) :
    ForwardKept state after := by
  cases step
  exact ⟨rfl, rfl, rfl⟩

/-- A link that exists has been created. -/
theorem link_lt {ref : LinkRef} {link : LinkState} (found : state.link ref = some link) :
    ref.index < state.created.length := by
  simp only [ServerState.link, List.getElem?_eq_some_iff] at found
  exact found.1

/-- The links after one of them moved. -/
theorem link_set {created : List LinkState} {ref other : LinkRef} {next : LinkState}
    (bound : ref.index < created.length) :
    (created.set ref.index next)[other.index]? =
      if other = ref then some next else created[other.index]? := by
  rw [List.getElem?_set]
  by_cases same : ref.index = other.index
  · have refs : other = ref := by cases ref; cases other; simp_all
    rw [if_pos same, if_pos bound, if_pos refs]
  · have refs : other ≠ ref := fun eq => same (by rw [eq])
    rw [if_neg same, if_neg refs]

/-- Sending on the shared channel changes that channel alone. -/
theorem enqueue_eq {message : Message} (sends : state.enqueue message = some after) :
    ∃ channel, after = { state with channel } ∧
      channel.items = state.channel.items ++ [message] := by
  simp only [ServerState.enqueue, Option.map_eq_some_iff] at sends
  obtain ⟨channel, sent, rfl⟩ := sends
  exact ⟨channel, rfl, Channel.trySend_items sent⟩

/-- A move that sends nothing. -/
theorem linkStep_quiet {ref : LinkRef} {link next : LinkState} (found : state.link ref = some link)
    (move : LinkMove parse link next none) : LinkStep parse state ref (state.setLink ref next) :=
  .moved found move (List.append_nil _).symm

/-- A move that sends a message. -/
theorem linkStep_sent {ref : LinkRef} {link next : LinkState} {body : Transaction}
    (found : state.link ref = some link) (move : LinkMove parse link next (some body))
    (sends : state.enqueue ⟨body, some ref⟩ = some after) :
    LinkStep parse state ref (after.setLink ref next) := by
  obtain ⟨channel, rfl, items⟩ := enqueue_eq sends
  exact .moved found move items

/-- A send to a link reaches its outgoing channel or fails. -/
theorem send_ok {link next : LinkState} {tr : Transaction} (sends : link.send tr = .ok next) :
    link.writer.ended = false ∧ ∃ outgoing, link.outgoing.trySend tr = some outgoing ∧
      next = { link with outgoing } := by
  unfold LinkState.send at sends
  split at sends
  · cases sends
  next alive =>
    split at sends
    next outgoing sent =>
      cases sends
      exact ⟨by simpa using alive, outgoing, sent, rfl⟩
    next => cases sends

/-- A send to a link is a step of the link. -/
theorem linkStep_of_send {ref : LinkRef} {link next : LinkState} {tr : Transaction}
    (found : state.link ref = some link) (sends : link.send tr = .ok next) :
    LinkStep parse state ref (state.setLink ref next) := by
  obtain ⟨alive, outgoing, sent, rfl⟩ := send_ok sends
  exact linkStep_quiet found (.queued alive sent)

/-- A send by token reaches the link in the table and changes that link alone. -/
theorem sendTo_ok {token : Token} {tr : Transaction} (sends : state.sendTo token tr = .ok after) :
    ∃ ref link next, state.links token = some ref ∧ state.link ref = some link ∧
      link.send tr = .ok next ∧ after = state.setLink ref next := by
  unfold ServerState.sendTo at sends
  split at sends
  · cases sends
  next ref link found =>
    simp only [ServerState.findLink, Option.bind_eq_some_iff, Option.map_eq_some_iff,
      Prod.mk.injEq] at found
    obtain ⟨_, listed, _, there, rfl, rfl⟩ := found
    split at sends
    next next sent =>
      cases sends
      exact ⟨_, _, next, listed, there, sent, rfl⟩
    next => cases sends

/-- A step of an exit sequence is a step of the link. -/
theorem linkStep_of_exit {ref : LinkRef} {link next : LinkState} {message : Option LinkFlags}
    (found : state.link ref = some link)
    (move : LinkMove parse link next (message.map fun flags => .linkChanged flags next.token))
    (steps : state.exitStep ref next message = some after) : LinkStep parse state ref after := by
  cases message with
  | none =>
      cases steps
      exact linkStep_quiet found move
  | some flags =>
      simp only [ServerState.exitStep, Option.map_eq_some_iff] at steps
      obtain ⟨sent, enqueues, rfl⟩ := steps
      exact linkStep_sent found move enqueues

/-- A step of a read loop is a step of the link. -/
theorem linkStep_of_read {ref : LinkRef} {link : LinkState} (found : state.link ref = some link)
    (steps : state.readStep parse ref link = some after) : LinkStep parse state ref after := by
  unfold ServerState.readStep at steps
  split at steps
  next stream pc =>
    split at steps
    next cause final shakes =>
      cases steps
      exact linkStep_quiet found (.shakeUnwound pc shakes)
    next outcome final shakes =>
      cases steps
      exact linkStep_quiet found (.shaken pc shakes)
  next input pc =>
    split at steps
    next frame rest reads =>
      cases steps
      exact linkStep_quiet found (.fetched pc reads)
    next error rest reads =>
      cases steps
      exact linkStep_quiet found (.readEnded pc reads)
    next cause rest reads =>
      cases steps
      exact linkStep_quiet found (.readUnwound pc reads)
  next frame rest pc =>
    simp only [Option.map_eq_some_iff] at steps
    obtain ⟨sent, enqueues, rfl⟩ := steps
    exact linkStep_sent found (.delivered pc) enqueues
  next pc place =>
    simp only [Option.bind_eq_some_iff] at steps
    obtain ⟨⟨next, word, message⟩, advances, exits⟩ := steps
    exact linkStep_of_exit found (.readerExits place advances) exits
  next => cases steps

/-- A step of a write loop is a step of the link. -/
theorem linkStep_of_write {ref : LinkRef} {written : Bool} {link : LinkState}
    (found : state.link ref = some link)
    (steps : state.writeStep ref written link = some after) : LinkStep parse state ref after := by
  unfold ServerState.writeStep at steps
  split at steps
  next pc =>
    simp only [Option.map_eq_some_iff] at steps
    obtain ⟨⟨tr, outgoing⟩, receives, rfl⟩ := steps
    exact linkStep_quiet found (.received pc receives)
  next tr pc =>
    split at steps
    next =>
      cases steps
      exact linkStep_quiet found (.wrote pc)
    next fails =>
      cases steps
      have emits : tr.emitted.isEmpty = false := by
        cases empty : tr.emitted.isEmpty
        · rfl
        · simp [empty] at fails
      exact linkStep_quiet found (.writeEnded pc emits)
  next pc place =>
    simp only [Option.bind_eq_some_iff] at steps
    obtain ⟨⟨next, word, message⟩, advances, exits⟩ := steps
    exact linkStep_of_exit found (.writerExits place advances) exits

/-- The accept loop and the thread that waits for both loops. -/
theorem accept_effect {label : ServerLabel} (steps : state.acceptStep label = some after) :
    Effect parse state after ∧ ForwardKept state after := by
  unfold ServerState.acceptStep at steps
  split at steps
  next succeeded =>
    split at steps <;> cases steps
    exact ⟨.quiet rfl rfl, rfl, rfl, rfl⟩
  next token stream =>
    split at steps <;> cases steps
    exact ⟨.accepted rfl rfl, rfl, rfl, rfl⟩
  next =>
    split at steps <;> cases steps
    exact ⟨.quiet rfl rfl, rfl, rfl, rfl⟩
  next =>
    split at steps <;> cases steps
    exact ⟨.quiet rfl rfl, rfl, rfl, rfl⟩
  next =>
    split at steps
    next ref place =>
      simp only [Option.map_eq_some_iff] at steps
      obtain ⟨sent, enqueues, rfl⟩ := steps
      obtain ⟨channel, rfl, items⟩ := enqueue_eq enqueues
      exact ⟨.posted (.inl ⟨ref, place, rfl⟩) rfl items, rfl, rfl, rfl⟩
    next => cases steps
  next =>
    split at steps
    next =>
      simp only [Option.map_eq_some_iff] at steps
      obtain ⟨sent, enqueues, rfl⟩ := steps
      obtain ⟨channel, rfl, items⟩ := enqueue_eq enqueues
      exact ⟨.posted (.inr rfl) rfl items, rfl, rfl, rfl⟩
    next => cases steps
  next =>
    split at steps
    · split at steps <;> cases steps
      exact ⟨.quiet rfl rfl, rfl, rfl, rfl⟩
    · split at steps <;> cases steps
      exact ⟨.quiet rfl rfl, rfl, rfl, rfl⟩
    · cases steps
  next => cases steps

/-- User code. -/
theorem user_effect {label : ServerLabel} (steps : state.userStep label = some after) :
    Effect parse state after ∧ ForwardKept state after := by
  have same : Effect parse state state ∧ ForwardKept state state :=
    ⟨.quiet rfl rfl, rfl, rfl, rfl⟩
  unfold ServerState.userStep at steps
  split at steps
  next =>
    cases steps
    exact ⟨.quiet rfl rfl, rfl, rfl, rfl⟩
  next token =>
    simp only [Option.map_eq_some_iff] at steps
    obtain ⟨⟨ref, link⟩, -, rfl⟩ := steps
    exact ⟨.quiet rfl rfl, rfl, rfl, rfl⟩
  next ref =>
    split at steps <;> cases steps
    exact ⟨.quiet rfl rfl, rfl, rfl, rfl⟩
  next ref tr =>
    split at steps
    next =>
      simp only [Option.map_eq_some_iff] at steps
      obtain ⟨link, found, rfl⟩ := steps
      split
      next next sends => exact ⟨.moved (linkStep_of_send found sends) rfl rfl, rfl, rfl, rfl⟩
      next => exact same
    next => cases steps
  next token tr =>
    split at steps
    next sent sends =>
      cases steps
      obtain ⟨ref, link, next, -, found, queues, rfl⟩ := sendTo_ok sends
      exact ⟨.moved (linkStep_of_send found queues) rfl rfl, rfl, rfl, rfl⟩
    next =>
      cases steps
      exact same
  next => cases steps

/-- Every step outside the forward loop. -/
theorem step_effect {label : ServerLabel}
    (taken : (serverMachine parse).step state label = some after) (other : label ≠ .forward) :
    Effect parse state after ∧ ForwardKept state after := by
  cases label with
  | forward => exact absurd rfl other
  | read ref =>
      simp only [serverMachine, ServerState.step, Option.bind_eq_some_iff] at taken
      obtain ⟨link, found, steps⟩ := taken
      have step := linkStep_of_read found steps
      exact ⟨.moved step rfl rfl, step.kept⟩
  | write ref written =>
      simp only [serverMachine, ServerState.step, Option.bind_eq_some_iff] at taken
      obtain ⟨link, found, steps⟩ := taken
      have step : LinkStep parse state ref after := linkStep_of_write found steps
      exact ⟨.moved step rfl rfl, step.kept⟩
  | _ =>
      simp only [serverMachine, ServerState.step, Option.or_eq_some_iff] at taken
      rcases taken with steps | ⟨-, steps⟩
      · exact accept_effect steps
      · exact user_effect steps

/-- The steps of the forward loop. -/
inductive ForwardMove (state : ServerState) : ServerState → Prop where
  | received {message channel} (pc : state.forward = .receiving)
      (receives : state.channel.recv = some (message, channel)) :
      ForwardMove state { state with
        channel, forward := .handling message, consumed := state.consumed ++ [message] }
  | handled {message} (pc : state.forward = .handling message) :
      ForwardMove state (state.handle message.body)
  | acknowledged {token} (pc : state.forward = .acknowledging token) :
      ForwardMove state
        (state.sendUnwrap (token.getD ⟨0⟩) (.frame (.settings Settings.ack) token) .receiving)
  | called {tr last} (pc : state.forward = .calling tr last) :
      ForwardMove state { state with
        callbacks := state.callbacks ++ [tr], forward := if last then .exited else .receiving }

/-- A step of the forward loop is one of its moves. -/
theorem forward_move (taken : (serverMachine parse).step state .forward = some after) :
    ForwardMove state after := by
  simp only [serverMachine, ServerState.step, ServerState.forwardStep] at taken
  split at taken
  next pc =>
    simp only [Option.map_eq_some_iff] at taken
    obtain ⟨⟨message, channel⟩, receives, rfl⟩ := taken
    exact .received pc receives
  next message pc =>
    cases taken
    exact .handled pc
  next token pc =>
    cases taken
    exact .acknowledged pc
  next tr last pc =>
    cases taken
    exact .called pc
  next => cases taken
  next => cases taken

/-- An unwrapped send changes one link at most. -/
theorem sendUnwrap_effect (state : ServerState) (token : Token) (tr : Transaction)
    (next : ForwardPc) : Effect parse state (state.sendUnwrap token tr next) := by
  unfold ServerState.sendUnwrap
  split
  next sent sends =>
    obtain ⟨ref, link, next, -, found, queues, rfl⟩ := sendTo_ok sends
    exact .moved (linkStep_of_send found queues) rfl rfl
  next => exact .quiet rfl rfl

/-- Handling a transaction sends to one link at most. -/
theorem handle_effect (state : ServerState) (tr : Transaction) :
    Effect parse state (state.handle tr) := by
  cases tr with
  | frame frame token =>
      cases frame with
      | settings settings =>
          simp only [ServerState.handle, ServerState.handleFrame]
          split
          · exact .quiet rfl rfl
          · exact sendUnwrap_effect _ _ _ _
      | _ => exact .quiet rfl rfl
  | linkChanged flags token =>
      simp only [ServerState.handle, ServerState.handleLinkChanged]
      split
      · split
        next sent sends =>
          obtain ⟨ref, link, next, -, found, queues, rfl⟩ := sendTo_ok sends
          exact .moved (linkStep_of_send found queues) rfl rfl
        next => exact .quiet rfl rfl
      · exact .quiet rfl rfl
      · exact .quiet rfl rfl
  | serverChanged flags =>
      simp only [ServerState.handle]
      split <;> exact .quiet rfl rfl
  | _ => exact .quiet rfl rfl

end H2l
