import H2l.Server.Closing

/-!
# Histories of a server

The history of the shared channel holds every message ever put on it, consumed or
queued. `ServerMove` lists what a step does to the whole state, and the lemmas below
say once what a move leaves alone, what it adds to the history and how it changes the
links.
-/

namespace H2l

open Base

namespace ServerState

/-- Every message put on the shared channel so far, oldest first. -/
def history (state : ServerState) : List Message := state.consumed ++ state.channel.items

end ServerState

/-- The link whose loop takes the step. -/
def ServerLabel.loopOf : ServerLabel → Option LinkRef
  | .read ref | .write ref _ => some ref
  | _ => none

/-- The steps of the accept loop and of the thread that waits for both loops. -/
inductive AcceptMove (state : ServerState) : ServerLabel → ServerState → Prop where
  | bound (place : state.accept = .binding) :
      AcceptMove state (.bind true) { state with accept := .accepting }
  | unbound (place : state.accept = .binding) :
      AcceptMove state (.bind false) { state with accept := .returned }
  | accepted {token stream} (place : state.accept = .accepting) (free : state.tokenFree token) :
      AcceptMove state (.connect token stream) { state with
        created := state.created ++ [.new token stream]
        accept := .registering ⟨state.created.length⟩ }
  | stopped {label} (place : state.accept = .accepting) :
      AcceptMove state label { state with accept := .announcing }
  | waited (place : state.accept = .accepting) :
      AcceptMove state .timeout { state with accept := .accepting }
  | registered {ref channel} (place : state.accept = .registering ref)
      (items : channel.items = state.channel.items ++ [⟨.newLink ref, none⟩]) :
      AcceptMove state .register { state with channel, accept := .accepting }
  | announced {channel} (place : state.accept = .announcing)
      (items : channel.items = state.channel.items ++ [⟨.serverChanged .acceptLoopExited, none⟩]) :
      AcceptMove state .announceExit { state with channel, accept := .returned }
  | awaited (place : state.main = .awaitingAccept) (returned : state.accept = .returned) :
      AcceptMove state .main { state with main := .awaitingForward }
  | terminated (place : state.main = .awaitingForward) (exited : state.forward = .exited) :
      AcceptMove state .main { state with
        main := .returned, callbacks := state.callbacks ++ [.serverChanged .terminated] }

/-- What user code does. -/
inductive UserMove (state : ServerState) : ServerState → Prop where
  | stopped : UserMove state { state with exitAcceptLoop := true }
  | took {token ref} (listed : state.links token = some ref) :
      UserMove state { state with held := ref :: state.held }
  | dropped {ref} : UserMove state { state with held := state.held.erase ref }
  | queued {ref link next tr} (found : state.link ref = some link)
      (sends : link.send tr = .ok next) : UserMove state (state.setLink ref next)
  | refused : UserMove state state

/-- What a step does to the whole state. -/
inductive ServerMove (parse : HttpParser) (state : ServerState) :
    ServerLabel → ServerState → Prop where
  | looped {label ref after} (mover : label.loopOf = some ref)
      (step : LinkStep parse state ref after) : ServerMove parse state label after
  | forwarded {after} (move : ForwardMove state after) : ServerMove parse state .forward after
  | acceptor {label after} (idle : label.loopOf = none) (other : label ≠ .forward)
      (move : AcceptMove state label after) : ServerMove parse state label after
  | user {label after} (idle : label.loopOf = none) (other : label ≠ .forward)
      (move : UserMove state after) : ServerMove parse state label after

/-- What a step of a link's loop leaves alone. -/
structure LoopFrame (state after : ServerState) : Prop extends ForwardKept state after where
  accept : after.accept = state.accept
  main : after.main = state.main
  held : after.held = state.held
  callbacks : after.callbacks = state.callbacks

/-- What the accept loop and the thread that waits leave alone. -/
structure AcceptFrame (state after : ServerState) : Prop extends ForwardKept state after where
  held : after.held = state.held

/-- What user code leaves alone. -/
structure UserFrame (state after : ServerState) : Prop extends ForwardKept state after where
  channel : after.channel = state.channel
  accept : after.accept = state.accept
  main : after.main = state.main
  callbacks : after.callbacks = state.callbacks

variable {parse : HttpParser} {state after : ServerState}

/-- What no step of a link changes. -/
theorem LinkStep.frame {ref : LinkRef} (step : LinkStep parse state ref after) :
    LoopFrame state after := by
  cases step
  exact ⟨⟨rfl, rfl, rfl⟩, rfl, rfl, rfl, rfl⟩

/-- What no step of the accept loop changes. -/
theorem AcceptMove.frame {label : ServerLabel} (move : AcceptMove state label after) :
    AcceptFrame state after := by
  cases move <;> exact ⟨⟨rfl, rfl, rfl⟩, rfl⟩

/-- What no step of user code changes. -/
theorem UserMove.frame (move : UserMove state after) : UserFrame state after := by
  cases move <;> exact ⟨⟨rfl, rfl, rfl⟩, rfl, rfl, rfl, rfl⟩

/-- A step of the accept loop is one of its moves. -/
theorem acceptMove_of_step {label : ServerLabel} (steps : state.acceptStep label = some after) :
    AcceptMove state label after := by
  unfold ServerState.acceptStep at steps
  split at steps
  next succeeded =>
    split at steps <;> cases steps
    next place =>
      cases succeeded
      · exact .unbound place
      · exact .bound place
  next token stream =>
    split at steps <;> cases steps
    next place => exact .accepted place.1 place.2
  next =>
    split at steps <;> cases steps
    next place => exact .stopped place
  next =>
    split at steps <;> cases steps
    next place =>
      by_cases exits : state.exitAcceptLoop
      · rw [if_pos exits]
        exact .stopped place
      · rw [if_neg exits]
        exact .waited place
  next =>
    split at steps
    next ref place =>
      simp only [Option.map_eq_some_iff] at steps
      obtain ⟨sent, enqueues, rfl⟩ := steps
      obtain ⟨channel, rfl, items⟩ := enqueue_eq enqueues
      exact .registered place items
    next => cases steps
  next =>
    split at steps
    next place =>
      simp only [Option.map_eq_some_iff] at steps
      obtain ⟨sent, enqueues, rfl⟩ := steps
      obtain ⟨channel, rfl, items⟩ := enqueue_eq enqueues
      exact .announced place items
    next => cases steps
  next =>
    split at steps
    next place =>
      split at steps <;> cases steps
      next returned => exact .awaited place returned
    next place =>
      split at steps <;> cases steps
      next exited => exact .terminated place exited
    next => cases steps
  next => cases steps

/-- A step of user code is one of its moves. -/
theorem userMove_of_step {label : ServerLabel} (steps : state.userStep label = some after) :
    UserMove state after := by
  unfold ServerState.userStep at steps
  split at steps
  next =>
    cases steps
    exact .stopped
  next token =>
    simp only [ServerState.findLink, Option.map_eq_some_iff, Option.bind_eq_some_iff] at steps
    obtain ⟨_, ⟨ref, listed, link, -, rfl⟩, rfl⟩ := steps
    exact .took listed
  next ref =>
    split at steps <;> cases steps
    exact .dropped
  next ref tr =>
    split at steps
    next =>
      simp only [Option.map_eq_some_iff] at steps
      obtain ⟨link, found, rfl⟩ := steps
      split
      next next sends => exact .queued found sends
      next => exact .refused
    next => cases steps
  next token tr =>
    split at steps
    next sent sends =>
      cases steps
      obtain ⟨ref, link, next, -, found, queues, rfl⟩ := sendTo_ok sends
      exact .queued found queues
    next =>
      cases steps
      exact .refused
  next => cases steps

/-- Every step is a move of one of the tasks. -/
theorem step_move {label : ServerLabel}
    (taken : (serverMachine parse).step state label = some after) :
    ServerMove parse state label after := by
  cases label with
  | forward => exact .forwarded (forward_move taken)
  | read ref =>
      simp only [serverMachine, ServerState.step, Option.bind_eq_some_iff] at taken
      obtain ⟨link, found, steps⟩ := taken
      exact .looped rfl (linkStep_of_read found steps)
  | write ref written =>
      simp only [serverMachine, ServerState.step, Option.bind_eq_some_iff] at taken
      obtain ⟨link, found, steps⟩ := taken
      exact .looped rfl (linkStep_of_write found steps)
  | _ =>
      simp only [serverMachine, ServerState.step, Option.or_eq_some_iff] at taken
      rcases taken with steps | ⟨-, steps⟩
      · exact .acceptor rfl (by simp) (acceptMove_of_step steps)
      · exact .user rfl (by simp) (userMove_of_step steps)

/-- The token under which the forward loop looks a link up for a transaction. -/
def Transaction.lookup : Transaction → Option Token
  | .frame _ token => some (token.getD ⟨0⟩)
  | .linkChanged _ token => some token
  | _ => none

/-- What handling a transaction does to the whole state. The place it leads to holds no message. -/
inductive HandleMove (state : ServerState) (tr : Transaction) : ServerState → Prop where
  | went {pc} (free : pc.current = []) (still : ∀ token, pc ≠ .acknowledging token) :
      HandleMove state tr { state with forward := pc }
  | sent {token ref link next pc} (looked : tr.lookup = some token)
      (listed : state.links token = some ref) (found : state.link ref = some link)
      (sends : ∃ notice, link.send notice = .ok next) (free : pc.current = [])
      (acknowledges : ∀ token', pc = .acknowledging token' → token'.getD ⟨0⟩ = token) :
      HandleMove state tr { state.setLink ref next with forward := pc }
  | inserted {ref} (registers : tr = .newLink ref) :
      HandleMove state tr { state.insert (state.tokenOf ref) ref with
        forward := .calling (.linkChanged .attached (state.tokenOf ref)) false }
  | removed {token} (detaches : tr = .linkChanged .readWriteClosed token) :
      HandleMove state tr { state.remove token with
        forward := .calling (.linkChanged .detached token) false }

/-- An unwrapped send is what handling its transaction comes to. -/
theorem sendUnwrap_move {tr notice : Transaction} {token : Token} {next : ForwardPc}
    (looked : tr.lookup = some token) (free : next.current = [])
    (acknowledges : ∀ token', next = .acknowledging token' → token'.getD ⟨0⟩ = token) :
    HandleMove state tr (state.sendUnwrap token notice next) := by
  unfold ServerState.sendUnwrap
  split
  next sent sends =>
    obtain ⟨ref, link, next, listed, found, queues, rfl⟩ := sendTo_ok sends
    exact .sent looked listed found ⟨notice, queues⟩ free acknowledges
  next => exact .went rfl (by simp)

/-- Handling a transaction is one of the moves listed above. -/
theorem handle_move (state : ServerState) (tr : Transaction) :
    HandleMove state tr (state.handle tr) := by
  have stays : ∀ {pc : ForwardPc}, pc.current = [] → (∀ token, pc ≠ .acknowledging token) →
      HandleMove state tr { state with forward := pc } := fun free still => .went free still
  cases tr with
  | frame frame token =>
      cases frame with
      | settings settings =>
          simp only [ServerState.handle, ServerState.handleFrame]
          split
          · exact stays rfl (by simp)
          · exact sendUnwrap_move rfl rfl fun token' same => by cases same; rfl
      | _ => exact stays rfl (by simp)
  | linkChanged flags token =>
      simp only [ServerState.handle, ServerState.handleLinkChanged]
      split
      · split
        next sent sends =>
          obtain ⟨ref, link, next, listed, found, queues, rfl⟩ := sendTo_ok sends
          exact .sent rfl listed found ⟨_, queues⟩ rfl (by simp)
        next => exact stays rfl (by simp)
      next arm =>
        obtain rfl := (detach_iff flags).mp arm
        exact .removed rfl
      · exact stays rfl (by simp)
  | serverChanged flags =>
      simp only [ServerState.handle]
      split <;> exact stays rfl (by simp)
  | newLink ref => exact .inserted rfl
  | _ => exact stays rfl (by simp)

/-- How a step changes the links. -/
inductive LinksMove (parse : HttpParser) (state after : ServerState) : Prop where
  | kept (created : after.created = state.created)
  | moved {ref link next sent} (found : state.link ref = some link)
      (move : LinkMove parse link next sent)
      (created : after.created = state.created.set ref.index next)
  | accepted {token stream} (free : state.tokenFree token)
      (created : after.created = state.created ++ [.new token stream])

/-- What a step adds to the history. -/
inductive Posting (parse : HttpParser) (state : ServerState) (label : ServerLabel)
    (after : ServerState) : Option Message → Prop where
  | silent : Posting parse state label after none
  | posted {ref link next body} (mover : label.loopOf = some ref)
      (found : state.link ref = some link) (move : LinkMove parse link next (some body)) :
      Posting parse state label after (some ⟨body, some ref⟩)
  | registered {ref} (place : state.accept = .registering ref)
      (returns : after.accept = .accepting) :
      Posting parse state label after (some ⟨.newLink ref, none⟩)
  | announced (place : state.accept = .announcing) (returns : after.accept = .returned) :
      Posting parse state label after (some ⟨.serverChanged .acceptLoopExited, none⟩)

/-- A send is a move of the link, without a message. -/
theorem move_of_send {link next : LinkState} {tr : Transaction} (sends : link.send tr = .ok next) :
    LinkMove parse link next none := by
  obtain ⟨alive, outgoing, queued, rfl⟩ := send_ok sends
  exact .queued alive queued

/-- The steps of the forward loop, with what handling a message does. -/
inductive ForwardTurn (state : ServerState) : ServerState → Prop where
  | received {message channel} (pc : state.forward = .receiving)
      (items : state.channel.items = message :: channel.items) :
      ForwardTurn state { state with
        channel, forward := .handling message, consumed := state.consumed ++ [message] }
  | handled {message after} (pc : state.forward = .handling message)
      (move : HandleMove state message.body after) : ForwardTurn state after
  | acknowledged {token after} (pc : state.forward = .acknowledging token)
      (move : HandleMove state (.frame (.settings Settings.ack) token) after) :
      ForwardTurn state after
  | called {tr last} (pc : state.forward = .calling tr last) :
      ForwardTurn state { state with
        callbacks := state.callbacks ++ [tr], forward := if last then .exited else .receiving }

/-- A move of the forward loop receives a message, handles one or calls the closure. -/
theorem forward_turn (move : ForwardMove state after) : ForwardTurn state after := by
  cases move with
  | received pc receives => exact .received pc (Channel.recv_items receives)
  | @handled message pc => exact .handled pc (handle_move state message.body)
  | acknowledged pc => exact .acknowledged pc (sendUnwrap_move rfl rfl (by simp))
  | called pc => exact .called pc

/-- What handling a message leaves alone. -/
structure HandleFrame (state after : ServerState) : Prop where
  channel : after.channel = state.channel
  accept : after.accept = state.accept
  main : after.main = state.main
  held : after.held = state.held
  consumed : after.consumed = state.consumed
  callbacks : after.callbacks = state.callbacks

/-- What handling a transaction does not change. -/
theorem HandleMove.frame {tr : Transaction} (move : HandleMove state tr after) :
    HandleFrame state after := by
  cases move <;> constructor <;> rfl

/-- Handling a transaction posts nothing. -/
theorem HandleMove.history {tr : Transaction} (move : HandleMove state tr after) :
    after.history = state.history := by
  rw [ServerState.history, ServerState.history, move.frame.consumed, move.frame.channel]

/-- The forward loop does not touch the accept loop, and accepts no link. -/
theorem HandleMove.acceptor {tr : Transaction} (move : HandleMove state tr after) :
    after.accept = state.accept ∧ after.created.length = state.created.length := by
  refine ⟨move.frame.accept, ?_⟩
  cases move with
  | sent => exact List.length_set
  | _ => rfl

/-- The forward loop neither creates links nor moves the accept loop. -/
theorem ForwardTurn.acceptor (turn : ForwardTurn state after) :
    after.accept = state.accept ∧ after.created.length = state.created.length := by
  cases turn with
  | handled pc move | acknowledged pc move => exact move.acceptor
  | _ => exact ⟨rfl, rfl⟩

/-- Receiving a message takes it from the queued ones to the consumed ones. -/
theorem ForwardTurn.history (turn : ForwardTurn state after) : after.history = state.history := by
  cases turn with
  | received pc items =>
      simp only [ServerState.history, items, List.append_assoc, List.singleton_append]
  | handled pc move => exact move.history
  | acknowledged pc move => exact move.history
  | called pc => rfl

/-- Handling a transaction moves one link at most. -/
theorem HandleMove.links (parse : HttpParser) {tr : Transaction}
    (move : HandleMove state tr after) : LinksMove parse state after := by
  cases move with
  | sent looked listed found sends =>
      obtain ⟨notice, sends⟩ := sends
      exact .moved found (move_of_send sends) rfl
  | _ => exact .kept rfl

/-- Every step moves one link, creates one, or leaves them alone. -/
theorem linksMove_of_move {label : ServerLabel} (move : ServerMove parse state label after) :
    LinksMove parse state after := by
  cases move with
  | looped mover step =>
      cases step with
      | moved found move items => exact .moved found move rfl
  | forwarded move =>
      cases forward_turn move with
      | handled pc move => exact move.links parse
      | acknowledged pc move => exact move.links parse
      | _ => exact .kept rfl
  | acceptor idle other move =>
      cases move with
      | accepted place free => exact .accepted free rfl
      | _ => exact .kept rfl
  | user idle other move =>
      cases move with
      | queued found sends => exact .moved found (move_of_send sends) rfl
      | _ => exact .kept rfl

/-- Links are never taken back. -/
theorem LinksMove.length_le (moves : LinksMove parse state after) :
    state.created.length ≤ after.created.length := by
  cases moves with
  | kept created | moved _ _ created => simp [created]
  | accepted _ created => simp [created]

/-- A link stays where it is, and moves at most once in a step. -/
theorem LinksMove.link (moves : LinksMove parse state after) {ref : LinkRef} {link : LinkState}
    (found : state.link ref = some link) :
    ∃ next, after.link ref = some next ∧ (next = link ∨ ∃ sent, LinkMove parse link next sent) := by
  simp only [ServerState.link] at found ⊢
  cases moves with
  | kept created => exact ⟨link, by rw [created, found], .inl rfl⟩
  | @moved moving link' next sent there move created =>
      rw [created, link_set (link_lt there)]
      by_cases same : ref = moving
      · subst same
        rw [ServerState.link, found] at there
        cases there
        exact ⟨next, if_pos rfl, .inr ⟨sent, move⟩⟩
      · exact ⟨link, by rw [if_neg same, found], .inl rfl⟩
  | accepted _ created =>
      refine ⟨link, ?_, .inl rfl⟩
      rw [created, List.getElem?_append_left (link_lt found), found]

/-- A link that is there was there before, or has just been accepted. -/
theorem LinksMove.earlier (moves : LinksMove parse state after) {ref : LinkRef} {next : LinkState}
    (found : after.link ref = some next) :
    (∃ link, state.link ref = some link ∧ (next = link ∨ ∃ sent, LinkMove parse link next sent)) ∨
      ∃ token stream, next = .new token stream := by
  simp only [ServerState.link] at found ⊢
  cases moves with
  | kept created => exact .inl ⟨next, created ▸ found, .inl rfl⟩
  | @moved moving link next' sent there move created =>
      rw [created, link_set (link_lt there)] at found
      by_cases same : ref = moving
      · rw [if_pos same] at found
        cases found
        exact .inl ⟨link, same ▸ there, .inr ⟨sent, move⟩⟩
      · rw [if_neg same] at found
        exact .inl ⟨next, found, .inl rfl⟩
  | @accepted token stream _ created =>
      rw [created] at found
      by_cases old : ref.index < state.created.length
      · rw [List.getElem?_append_left old] at found
        exact .inl ⟨next, found, .inl rfl⟩
      · rw [List.getElem?_append_right (Nat.le_of_not_lt old)] at found
        exact .inr ⟨token, stream, List.mem_singleton.mp (List.mem_of_getElem? found)⟩

/-- What was created can be looked up. -/
theorem link_of_lt {ref : LinkRef} (old : ref.index < state.created.length) :
    ∃ link, state.link ref = some link :=
  ⟨state.created[ref.index], List.getElem?_eq_getElem old⟩

/-- A step moves the forward loop or leaves what is its own. -/
theorem turn_or_kept {label : ServerLabel} (move : ServerMove parse state label after) :
    ForwardTurn state after ∨ ForwardKept state after := by
  cases move with
  | looped mover step => exact .inr step.kept
  | forwarded move => exact .inl (forward_turn move)
  | acceptor idle other move => exact .inr move.frame.toForwardKept
  | user idle other move => exact .inr move.frame.toForwardKept

/-- After its message was handled the forward loop has none in hand. -/
theorem HandleMove.free {tr : Transaction} (move : HandleMove state tr after) :
    after.forward.current = [] := by
  cases move with
  | went free | sent _ _ _ _ free => exact free
  | inserted | removed => rfl

/-- A loop's messages carry the token of its link. -/
theorem LinkMove.lookup {link next : LinkState} {body : Transaction}
    (move : LinkMove parse link next (some body)) : body.lookup = some link.token := by
  generalize posted : some body = sent at move
  cases move with
  | delivered => cases posted; rfl
  | @readerExits pc next' word message | @writerExits pc next' word message =>
      cases message with
      | none => cases posted
      | some flags => cases posted; rfl
  | _ => cases posted

/-- What every step adds to the history. -/
theorem posting_of_move {label : ServerLabel} (move : ServerMove parse state label after) :
    ∃ sent, Posting parse state label after sent ∧
      after.history = state.history ++ sent.toList := by
  have silent : after.history = state.history →
      ∃ sent, Posting parse state label after sent ∧
        after.history = state.history ++ sent.toList := fun same =>
    ⟨none, .silent, same.trans (List.append_nil _).symm⟩
  cases move with
  | looped mover step =>
      cases step with
      | @moved link next sent channel found move items =>
          cases sent with
          | none => exact silent (congrArg (state.consumed ++ ·) (items.trans (List.append_nil _)))
          | some body =>
              refine ⟨some ⟨body, some _⟩, .posted mover found move, ?_⟩
              simp only [ServerState.history, items, List.append_assoc]
              rfl
  | forwarded move => exact silent (forward_turn move).history
  | acceptor idle other move =>
      cases move with
      | @registered ref channel place items =>
          refine ⟨some ⟨.newLink ref, none⟩, .registered place rfl, ?_⟩
          simp only [ServerState.history, items, List.append_assoc, Option.toList_some]
      | @announced channel place items =>
          refine ⟨some ⟨.serverChanged .acceptLoopExited, none⟩, .announced place rfl, ?_⟩
          simp only [ServerState.history, items, List.append_assoc, Option.toList_some]
      | _ => exact silent rfl
  | user idle other move =>
      have kept := move.frame
      exact silent (by rw [ServerState.history, ServerState.history, kept.consumed, kept.channel])

end H2l
