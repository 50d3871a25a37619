import H2l.Server.History

/-!
# The order of the callbacks of a link

The accept loop sends `NewLink` after it has started the loops of a link, so that the
loops may put messages on the shared channel before it. `callbackOrder` says that the
callbacks of every link come in order when no content and no closing message overtakes
the registration; `headersOvertake_not_ordered` shows one that does.
-/

namespace H2l

open Base

/-- What a callback tells an application about a link. -/
inductive CallKind where
  | attached
  /-- A DATA or HEADERS frame. -/
  | content
  | detached
  | other
deriving DecidableEq, Repr

/-- Which of these callbacks a transaction makes. -/
def Transaction.kind : Transaction → CallKind
  | .frame (.data _) _ | .frame (.headers _) _ => .content
  | .linkChanged flags _ =>
      if flags = .attached then .attached else if flags = .detached then .detached else .other
  | _ => .other

/-- The link that a message of the shared channel is about. -/
def Message.subject (message : Message) : Option LinkRef :=
  match message.body with
  | .newLink ref => some ref
  | _ => message.sender

/-- The callback that the forward loop makes about each link. -/
abbrev Callback := Option LinkRef × Transaction

/-- The callback of one step: the closure is called about the link of the last message. -/
def callOf : ServerState × ServerLabel → List Callback
  | (state, .forward) =>
      match state.forward with
      | .calling tr _ => [(state.consumed.getLast?.bind Message.subject, tr)]
      | _ => []
  | _ => []

/-- The callbacks of the forward loop in a run, each with the link that it is about. -/
def callbackLog (trace : List (ServerState × ServerLabel)) : List Callback := trace.flatMap callOf

/-- Callbacks by kind: a link is attached before anything else is said of it, and no content
follows its detachment. -/
structure CallsOrdered (calls : List (Option LinkRef × CallKind)) : Prop where
  attachedFirst : ∀ earlier later ref kind, calls = earlier ++ (some ref, kind) :: later →
    kind = .content ∨ kind = .detached → (some ref, .attached) ∈ earlier
  silent : calls.Pairwise fun call later =>
    ∀ ref, call = (some ref, .detached) → later ≠ (some ref, .content)

/-- The closure was called with the logged callbacks, and `TERMINATED` at the end; the callbacks of
every link come in order. -/
structure CallbackOrder (trace : List (ServerState × ServerLabel)) (state : ServerState) :
    Prop where
  called : state.callbacks = (callbackLog trace).map Prod.snd ++
    if state.main = .returned then [.serverChanged .terminated] else []
  ordered : CallsOrdered ((callbackLog trace).map fun call => (call.1, call.2.kind))

/-- The reader has stored its flag. -/
def LinkState.readerStored (link : LinkState) : Bool :=
  match link.reader with
  | .closing pc => pc.stored
  | _ => false

/-- What the next step of a loop puts on the shared channel. -/
def LinkState.posts (link : LinkState) : Side → Option Transaction
  | .reader =>
      match link.reader with
      | .delivering frame _ => some (.frame frame (some link.token))
      | .closing (.announce flags) => some (.linkChanged flags link.token)
      | _ => none
  | .writer =>
      match link.writer with
      | .closing (.announce flags) => some (.linkChanged flags link.token)
      | _ => none

/-- What the closure will be told when the forward loop handles a message. -/
def Transaction.told : Transaction → Option CallKind
  | .frame (.data _) _ | .frame (.headers _) _ => some .content
  | .frame _ _ => none
  | .newLink _ => some .attached
  | .linkChanged flags _ => if linkChangedArm flags = .detach then some .detached else none
  | .serverChanged flags => if flags = .acceptLoopExited then some .other else none
  | tr => some tr.kind

/-- The next step of a loop sends content, or a message that detaches, before the registration of
its link. -/
def ServerState.overtakes (state : ServerState) (ref : LinkRef) (side : Side) : Bool :=
  state.accept == .registering ref &&
    (state.link ref).any fun link => (link.posts side).any fun body => body.told.isSome

/-- Neither content nor a message that detaches overtakes the registration of its link. -/
def RegisteredFirst (state : ServerState) : ServerLabel → Prop
  | .read ref => state.overtakes ref .reader = false
  | .write ref _ => state.overtakes ref .writer = false
  | _ => True

/-- What a message will tell the closure, and about which link. -/
def Message.call (message : Message) : Option (Option LinkRef × CallKind) :=
  message.body.told.map fun kind => (message.subject, kind)

/-- The word shows a closed reader only when the reader has closed. -/
structure LinkState.ClosedSeen (link : LinkState) : Prop where
  word : FlagSet.contains (Link.flags link.word) LinkFlags.readClosed → link.readerStored
  storing : ∀ loaded, link.writer = .closing (.store loaded) →
    FlagSet.contains loaded LinkFlags.readClosed → link.readerStored
  announcing : ∀ flags, link.writer = .closing (.announce flags) →
    FlagSet.contains flags LinkFlags.readClosed → link.readerStored

/-- What the order of the callbacks rests on. -/
structure OrderInv (state : ServerState) : Prop where
  registered : ∀ ref, ref.index < state.created.length → state.accept = .registering ref ∨
    ∃ message ∈ state.history, message.body = .newLink ref
  seen : ∀ ref link, state.link ref = some link → link.ClosedSeen
  stored : ∀ message ∈ state.history, ∀ ref, message.call = some (some ref, .detached) →
    ∃ link, state.link ref = some link ∧ link.readerStored
  ordered : CallsOrdered (state.history.filterMap Message.call)

variable {parse : HttpParser} {state after : ServerState}

/-- The callbacks so far are ordered when all of them are. -/
theorem CallsOrdered.of_prefix {calls further : List (Option LinkRef × CallKind)}
    (ordered : CallsOrdered (calls ++ further)) : CallsOrdered calls where
  attachedFirst earlier later ref kind split told :=
    ordered.attachedFirst earlier (later ++ further) ref kind (by simp [split]) told
  silent := (List.pairwise_append.mp ordered.silent).1

/-- One more call keeps the order when its link is attached and content is not late. -/
theorem CallsOrdered.snoc {calls : List (Option LinkRef × CallKind)} (ordered : CallsOrdered calls)
    {subject : Option LinkRef} {kind : CallKind}
    (attached : ∀ ref, subject = some ref → kind = .content ∨ kind = .detached →
      (some ref, .attached) ∈ calls)
    (onTime : ∀ ref, subject = some ref → kind = .content → (some ref, .detached) ∉ calls) :
    CallsOrdered (calls ++ [(subject, kind)]) where
  attachedFirst := by
    intro earlier later ref kind' split told
    rcases List.eq_nil_or_concat later with rfl | ⟨init, last, rfl⟩
    · obtain ⟨rfl, same⟩ := List.append_inj' split rfl
      cases same
      exact attached ref rfl told
    · have shifted : calls ++ [(subject, kind)] =
          (earlier ++ (some ref, kind') :: init) ++ [last] := by simpa using split
      obtain ⟨rfl, -⟩ := List.append_inj' shifted rfl
      exact ordered.attachedFirst earlier init ref kind' rfl told
  silent := by
    refine List.pairwise_append.mpr ⟨ordered.silent, List.pairwise_singleton _ _, ?_⟩
    rintro call member later new ref rfl same
    obtain rfl := List.mem_singleton.mp new
    cases same
    exact onTime ref rfl rfl member

/-- An exit sequence posts its message or nothing. -/
theorem posts_of_exit {ref : LinkRef} {next : LinkState} {message : Option LinkFlags}
    (steps : state.exitStep ref next message = some after) :
    after.channel = state.channel ∨ ∃ flags, message = some flags ∧
      after.channel.items =
        state.channel.items ++ [⟨.linkChanged flags next.token, some ref⟩] := by
  cases message with
  | none =>
      cases steps
      exact .inl rfl
  | some flags =>
      simp only [ServerState.exitStep, Option.map_eq_some_iff] at steps
      obtain ⟨sent, enqueues, rfl⟩ := steps
      obtain ⟨channel, rfl, items⟩ := enqueue_eq enqueues
      exact .inr ⟨flags, rfl, items⟩

/-- Only the announcement of an exit sequence sends. -/
theorem announces_of_advance {side : Side} {word word' : Word} {pc next : ExitPc}
    {flags : LinkFlags} (advances : pc.advance side word = some (next, word', some flags)) :
    pc = .announce flags := by
  cases pc <;> cases advances
  rfl

/-- A step of the read loop sends what stood there to be sent. -/
theorem posts_of_read {ref : LinkRef} {link : LinkState}
    (steps : state.readStep parse ref link = some after) :
    after.channel = state.channel ∨ ∃ body, link.posts .reader = some body ∧
      after.channel.items = state.channel.items ++ [⟨body, some ref⟩] := by
  unfold ServerState.readStep at steps
  split at steps
  next stream pc =>
    split at steps <;> cases steps <;> exact .inl rfl
  next input pc =>
    split at steps <;> cases steps <;> exact .inl rfl
  next frame rest pc =>
    simp only [Option.map_eq_some_iff] at steps
    obtain ⟨sent, enqueues, rfl⟩ := steps
    obtain ⟨channel, rfl, items⟩ := enqueue_eq enqueues
    exact .inr ⟨_, by rw [LinkState.posts, pc], items⟩
  next pc place =>
    simp only [Option.bind_eq_some_iff] at steps
    obtain ⟨⟨next, word, message⟩, advances, exits⟩ := steps
    rcases posts_of_exit exits with quiet | ⟨flags, rfl, items⟩
    · exact .inl quiet
    · obtain rfl := announces_of_advance advances
      exact .inr ⟨_, by rw [LinkState.posts, place], items⟩
  next => cases steps

/-- A step of the write loop sends what stood there to be sent. -/
theorem posts_of_write {ref : LinkRef} {written : Bool} {link : LinkState}
    (steps : state.writeStep ref written link = some after) :
    after.channel = state.channel ∨ ∃ body, link.posts .writer = some body ∧
      after.channel.items = state.channel.items ++ [⟨body, some ref⟩] := by
  unfold ServerState.writeStep at steps
  split at steps
  next pc =>
    simp only [Option.map_eq_some_iff] at steps
    obtain ⟨⟨tr, outgoing⟩, receives, rfl⟩ := steps
    exact .inl rfl
  next tr pc =>
    split at steps <;> cases steps <;> exact .inl rfl
  next pc place =>
    simp only [Option.bind_eq_some_iff] at steps
    obtain ⟨⟨next, word, message⟩, advances, exits⟩ := steps
    rcases posts_of_exit exits with quiet | ⟨flags, rfl, items⟩
    · exact .inl quiet
    · obtain rfl := announces_of_advance advances
      exact .inr ⟨_, by rw [LinkState.posts, place], items⟩

/-- Before its registration a link sends nothing that the closure is told about. -/
theorem untold_of_registering {label : ServerLabel}
    (taken : (serverMachine parse).step state label = some after)
    (guard : RegisteredFirst state label) {ref : LinkRef} {body : Transaction}
    (mover : label.loopOf = some ref) (place : state.accept = .registering ref)
    (sent : after.history = state.history ++ [⟨body, some ref⟩]) : body.told = none := by
  have told : ∀ {side link body'}, state.overtakes ref side = false →
      state.link ref = some link → link.posts side = some body' → body'.told = none := by
    intro side link body' first found posts
    simpa [ServerState.overtakes, place, found, posts] using first
  have posted : ∀ {body'}, after.channel.items = state.channel.items ++ [⟨body', some ref⟩] →
      after.consumed = state.consumed → body' = body := by
    intro body' items consumed
    simp only [ServerState.history, items, consumed, ← List.append_assoc] at sent
    simpa using List.append_cancel_left sent
  have quiet : after.channel = state.channel → after.consumed = state.consumed → False := by
    intro channel consumed
    simp [ServerState.history, channel, consumed] at sent
  cases label with
  | read reader =>
      obtain rfl : reader = ref := Option.some.inj mover
      simp only [serverMachine, ServerState.step, Option.bind_eq_some_iff] at taken
      obtain ⟨link, found, steps⟩ := taken
      have consumed := (linkStep_of_read found steps).kept.consumed
      rcases posts_of_read steps with channel | ⟨body', posts, items⟩
      · exact (quiet channel consumed).elim
      · exact posted items consumed ▸ told guard found posts
  | write writer written =>
      obtain rfl : writer = ref := Option.some.inj mover
      simp only [serverMachine, ServerState.step, Option.bind_eq_some_iff] at taken
      obtain ⟨link, found, steps⟩ := taken
      have moves : LinkStep parse state writer after := linkStep_of_write found steps
      rcases posts_of_write steps with channel | ⟨body', posts, items⟩
      · exact (quiet channel moves.kept.consumed).elim
      · exact posted items moves.kept.consumed ▸ told guard found posts
  | _ => cases mover

/-- The decoded flags are those of the word, or none. -/
theorem flags_bits {word : Word} (some : Link.flags word ≠ .none) :
    (Link.flags word).bits = word := by
  unfold Link.flags at some ⊢
  split
  next same => exact same.symm
  next =>
    split
    next same => exact same.symm
    next =>
      split
      next same => exact same.symm
      next =>
        split
        next same => exact same.symm
        next =>
          split
          next same => exact same.symm
          next => simp_all

/-- A stored word shows no more flags than the set it was stored from. -/
theorem seen_of_stored {set flag : LinkFlags}
    (nonempty : FlagSet.contains LinkFlags.none flag = false)
    (seen : FlagSet.contains (Link.flags set.bits) flag) : FlagSet.contains set flag := by
  have some : Link.flags set.bits ≠ .none := by
    intro none
    rw [none, nonempty] at seen
    cases seen
  rwa [FlagSet.ext (flags_bits some)] at seen

/-- A reader that has stored its flag stays so. -/
theorem LinkMove.readerStored {link next : LinkState} {sent : Option Transaction}
    (move : LinkMove parse link next sent) (stored : link.readerStored) : next.readerStored := by
  cases move with
  | @readerExits pc after word message place advances =>
      simp only [LinkState.readerStored, place] at stored ⊢
      cases pc with
      | load | store loaded => cases stored
      | reload | announce flags => cases advances; rfl
      | finished => cases advances
  | shaken pc | shakeUnwound pc | fetched pc | readEnded pc | readUnwound pc | delivered pc =>
      simp [LinkState.readerStored, pc] at stored
  | _ => exact stored

/-- A move that touches neither the word nor the exit sequence of the writer. -/
theorem LinkState.ClosedSeen.kept {link next : LinkState} (seen : link.ClosedSeen)
    (stored : link.readerStored → next.readerStored) (word : next.word = link.word)
    (writer : next.writer = link.writer ∨ ∀ pc, next.writer = .closing pc → pc = .load) :
    next.ClosedSeen where
  word shown := stored (seen.word (word ▸ shown))
  storing loaded pc shown := by
    rcases writer with same | fresh
    · exact stored (seen.storing loaded (same ▸ pc) shown)
    · cases fresh _ pc
  announcing flags pc shown := by
    rcases writer with same | fresh
    · exact stored (seen.announcing flags (same ▸ pc) shown)
    · cases fresh _ pc

theorem received_closing {tr : Transaction} {pc : ExitPc}
    (closes : WriterPc.received tr = .closing pc) : pc = .load := by
  unfold WriterPc.received at closes
  split at closes
  next => cases closes
  next => cases closes
  next =>
    split at closes
    · cases closes
      rfl
    · cases closes
  next => cases closes

/-- A step of the writer's exit sequence shows a closed reader only if it saw one. -/
theorem closedSeen_of_writerExit {link : LinkState} {pc next : ExitPc} {word : Word}
    {message : Option LinkFlags} (seen : link.ClosedSeen) (place : link.writer = .closing pc)
    (advances : pc.advance .writer link.word = some (next, word, message)) :
    LinkState.ClosedSeen { link with word, writer := .closing next } := by
  cases pc with
  | load =>
      cases advances
      refine ⟨seen.word, ?_, by simp⟩
      intro loaded stands shown
      cases stands
      exact seen.word shown
  | store loaded =>
      cases advances
      refine ⟨fun shown => seen.storing loaded place ?_, by simp, by simp⟩
      have added := seen_of_stored (by decide) shown
      rwa [FlagSet.contains_union_of_disjoint loaded (by decide)] at added
  | reload =>
      cases advances
      refine ⟨seen.word, by simp, ?_⟩
      intro flags stands shown
      cases stands
      exact seen.word shown
  | announce flags =>
      cases advances
      exact ⟨seen.word, by simp, by simp⟩
  | finished => cases advances

/-- Every move of a link keeps what its word shows. -/
theorem LinkMove.closedSeen {link next : LinkState} {sent : Option Transaction}
    (move : LinkMove parse link next sent) (seen : link.ClosedSeen) : next.ClosedSeen := by
  have stored := move.readerStored
  cases move with
  | @readerExits pc after word message place advances =>
      cases pc with
      | store loaded =>
          cases advances
          exact ⟨fun _ => rfl, fun _ _ _ => rfl, fun _ _ _ => rfl⟩
      | finished => cases advances
      | _ => cases advances; exact seen.kept stored rfl (.inl rfl)
  | writerExits place advances => exact closedSeen_of_writerExit seen place advances
  | received pc receives => exact seen.kept stored rfl (.inr fun pc => received_closing)
  | wrote pc => exact seen.kept stored rfl (.inr fun pc closes => by cases closes)
  | writeEnded pc => exact seen.kept stored rfl (.inr fun pc closes => by cases closes; rfl)
  | _ => exact seen.kept stored rfl (.inl rfl)

/-- A message that detaches comes after the reader has stored its flag. -/
theorem LinkMove.detaches {link next : LinkState} {body : Transaction}
    (move : LinkMove parse link next (some body)) (seen : link.ClosedSeen)
    (told : body.told = some .detached) : link.readerStored := by
  generalize posted : some body = sent at move
  have both : ∀ {flags token}, (Transaction.linkChanged flags token).told = some .detached →
      FlagSet.contains flags LinkFlags.readClosed := by
    intro flags token told
    simp only [Transaction.told] at told
    split at told
    next arm => rw [(detach_iff flags).mp arm]; decide
    next => cases told
  cases move with
  | @delivered frame rest pc =>
      cases posted
      cases frame <;> cases told
  | @readerExits pc after word message place advances =>
      cases message with
      | none => cases posted
      | some flags =>
          obtain rfl := announces_of_advance advances
          simp [LinkState.readerStored, place, ExitPc.stored]
  | @writerExits pc after word message place advances =>
      cases message with
      | none => cases posted
      | some flags =>
          obtain rfl := announces_of_advance advances
          cases posted
          exact seen.announcing flags place (both told)
  | _ => cases posted

/-- Content comes before the reader has stored its flag. -/
theorem LinkMove.delivers {link next : LinkState} {body : Transaction}
    (move : LinkMove parse link next (some body)) (told : body.told = some .content) :
    link.readerStored = false := by
  generalize posted : some body = sent at move
  cases move with
  | delivered pc => simp [LinkState.readerStored, pc]
  | @readerExits pc after word message | @writerExits pc after word message =>
      cases message with
      | none => cases posted
      | some flags =>
          cases posted
          simp only [Transaction.told] at told
          split at told <;> cases told
  | _ => cases posted

theorem orderInv_start : OrderInv .start where
  registered _ bound := absurd bound (Nat.not_lt_zero _)
  seen _ _ found := by simp [ServerState.start, ServerState.link] at found
  stored _ member := absurd member List.not_mem_nil
  ordered := ⟨by simp [ServerState.start, ServerState.history, Channel.empty], .nil⟩

/-- A link is registered once the accept loop goes on. -/
theorem registered_of_move {label : ServerLabel} (inv : OrderInv state)
    (move : ServerMove parse state label after) {ref : LinkRef}
    (bound : ref.index < after.created.length) : after.accept = .registering ref ∨
      ∃ message ∈ after.history, message.body = .newLink ref := by
  obtain ⟨sent, posting, history⟩ := posting_of_move move
  have kept : (∃ message ∈ state.history, message.body = .newLink ref) →
      ∃ message ∈ after.history, message.body = .newLink ref := by
    rintro ⟨message, member, registers⟩
    exact ⟨message, history ▸ List.mem_append_left _ member, registers⟩
  have same : after.accept = state.accept → after.created.length = state.created.length →
      after.accept = .registering ref ∨ ∃ message ∈ after.history, message.body = .newLink ref :=
    fun accept length => accept ▸ (inv.registered ref (length ▸ bound)).imp id kept
  have other : state.accept ≠ .registering ref → after.created.length = state.created.length →
      after.accept = .registering ref ∨ ∃ message ∈ after.history, message.body = .newLink ref :=
    fun other length => .inr (kept ((inv.registered ref (length ▸ bound)).resolve_left other))
  cases move with
  | looped mover step => cases step with | moved => exact same rfl List.length_set
  | forwarded move => exact same (forward_turn move).acceptor.1 (forward_turn move).acceptor.2
  | user idle other move =>
      cases move with
      | queued => exact same rfl List.length_set
      | _ => exact same rfl rfl
  | acceptor idle other move =>
      cases move with
      | accepted place free =>
          by_cases old : ref.index < state.created.length
          · exact .inr (kept ((inv.registered ref old).resolve_left (by simp [place])))
          · have fresh : ref.index = state.created.length := by
              simp only [List.length_append, List.length_singleton] at bound
              omega
            exact .inl (congrArg AcceptPc.registering (congrArg LinkRef.mk fresh.symm))
      | @registered ref' channel place items =>
          by_cases this : ref' = ref
          · subst this
            exact .inr ⟨⟨.newLink ref', none⟩, by simp [ServerState.history, items], rfl⟩
          · exact other (by simp [place, this]) rfl
      | awaited | terminated => exact same rfl rfl
      | bound place | unbound place | stopped place | waited place | announced place =>
          exact other (by simp [place]) rfl

theorem call_eq_some {message : Message} {ref : LinkRef} {kind : CallKind}
    (calls : message.call = some (some ref, kind)) :
    message.subject = some ref ∧ message.body.told = some kind := by
  simp only [Message.call, Option.map_eq_some_iff, Prod.mk.injEq] at calls
  obtain ⟨_, told, subject, rfl⟩ := calls
  exact ⟨subject, told⟩

/-- A link's own messages are about that link. -/
theorem subject_of_link {link next : LinkState} {body : Transaction} {ref : LinkRef}
    (move : LinkMove parse link next (some body)) :
    Message.subject ⟨body, some ref⟩ = some ref := by
  generalize posted : some body = sent at move
  cases move with
  | delivered => cases posted; rfl
  | @readerExits pc after word message | @writerExits pc after word message =>
      cases message with
      | none => cases posted
      | some flags => cases posted; rfl
  | _ => cases posted

theorem LinksMove.readerStored (moves : LinksMove parse state after) {ref : LinkRef}
    (stored : ∃ link, state.link ref = some link ∧ link.readerStored) :
    ∃ link, after.link ref = some link ∧ link.readerStored := by
  obtain ⟨link, found, holds⟩ := stored
  obtain ⟨next, found', become⟩ := moves.link found
  refine ⟨next, found', ?_⟩
  rcases become with rfl | ⟨sent, move⟩
  · exact holds
  · exact move.readerStored holds

/-- A link keeps what its flags say of its read loop. -/
theorem seen_of_move (inv : OrderInv state) (moves : LinksMove parse state after) {ref : LinkRef}
    {link : LinkState} (found : after.link ref = some link) : link.ClosedSeen := by
  rcases moves.earlier found with ⟨before, there, rfl | ⟨sent, move⟩⟩ | ⟨token, stream, rfl⟩
  · exact inv.seen ref link there
  · exact move.closedSeen (inv.seen ref before there)
  · have unseen :
        FlagSet.contains (Link.flags LinkFlags.none.bits) LinkFlags.readClosed = false := by
      decide
    refine ⟨fun shown => ?_, by simp [LinkState.new], by simp [LinkState.new]⟩
    cases unseen.symm.trans shown

/-- A message that detaches a link comes after its read loop's store. -/
theorem stored_of_move (inv : OrderInv state) (moves : LinksMove parse state after)
    {label : ServerLabel} {sent : Option Message} (posting : Posting parse state label after sent) :
    ∀ message ∈ state.history ++ sent.toList, ∀ ref,
      message.call = some (some ref, .detached) →
        ∃ link, after.link ref = some link ∧ link.readerStored := by
  intro message member ref calls
  rcases List.mem_append.mp member with member | added
  · exact moves.readerStored (inv.stored message member ref calls)
  · cases posting with
    | silent => cases added
    | @posted mover link next body owner found move =>
        obtain rfl := List.mem_singleton.mp added
        obtain ⟨subject, told⟩ := call_eq_some calls
        obtain rfl : mover = ref := Option.some.inj ((subject_of_link move).symm.trans subject)
        exact moves.readerStored ⟨link, found, move.detaches (inv.seen mover link found) told⟩
    | registered =>
        obtain rfl := List.mem_singleton.mp added
        cases calls
    | announced =>
        obtain rfl := List.mem_singleton.mp added
        cases (call_eq_some calls).1

theorem mem_calls_iff {calls : List Message} {call : Option LinkRef × CallKind} :
    call ∈ calls.filterMap Message.call ↔ ∃ message ∈ calls, message.call = some call :=
  List.mem_filterMap

/-- What is added to the history tells the closure nothing too early and nothing too late. -/
theorem ordered_of_step {label : ServerLabel} (inv : OrderInv state)
    (guard : RegisteredFirst state label)
    (taken : (serverMachine parse).step state label = some after) {sent : Option Message}
    (posting : Posting parse state label after sent)
    (history : after.history = state.history ++ sent.toList) :
    CallsOrdered ((state.history ++ sent.toList).filterMap Message.call) := by
  rw [List.filterMap_append]
  cases posting with
  | silent => simpa using inv.ordered
  | registered => exact inv.ordered.snoc (by simp) (by simp)
  | announced => exact inv.ordered.snoc (by simp) (by simp)
  | @posted ref link next body mover found move =>
      cases told : body.told with
      | none => simpa [Message.call, told] using inv.ordered
      | some kind =>
          have calls : Message.call ⟨body, some ref⟩ = some (some ref, kind) := by
            simp [Message.call, told, subject_of_link move]
          simp only [Option.toList_some, List.filterMap_cons, calls, List.filterMap_nil]
          refine inv.ordered.snoc ?_ ?_
          · rintro _ ⟨⟩ -
            have elsewhere : state.accept ≠ .registering ref := by
              intro place
              cases told.symm.trans (untold_of_registering taken guard mover place history)
            obtain ⟨message, member, registers⟩ :=
              (inv.registered ref (link_lt found)).resolve_left elsewhere
            refine mem_calls_iff.mpr ⟨message, member, ?_⟩
            simp [Message.call, Message.subject, Transaction.told, registers]
          · rintro _ ⟨⟩ rfl late
            obtain ⟨message, member, detached⟩ := mem_calls_iff.mp late
            obtain ⟨link', found', stored⟩ := inv.stored message member ref detached
            cases found.symm.trans found'
            rw [move.delivers told] at stored
            cases stored

/-- A step that posts in order keeps the callbacks in order. -/
theorem orderInv_of_step {label : ServerLabel} (inv : OrderInv state)
    (guard : RegisteredFirst state label)
    (taken : (serverMachine parse).step state label = some after) : OrderInv after := by
  have move := step_move taken
  have moves := linksMove_of_move move
  obtain ⟨sent, posting, history⟩ := posting_of_move move
  exact ⟨fun ref bound => registered_of_move inv move bound,
    fun ref link found => seen_of_move inv moves found,
    history ▸ stored_of_move inv moves posting,
    history ▸ ordered_of_step inv guard taken posting history⟩

/-- Which message the forward loop is telling the closure about. -/
inductive Telling (message : Message) : ForwardPc → Prop where
  | handling : Telling message (.handling message)
  | calling {tr last} (calls : message.call = some (message.subject, tr.kind)) :
      Telling message (.calling tr last)

/-- The log holds the calls of the messages that the forward loop is done with. -/
inductive Logged (log : List Callback) (state : ServerState) : Prop where
  | between (idle : state.forward.current = [])
      (silent : ∀ tr last, state.forward ≠ .calling tr last)
      (told : log.map (fun call => (call.1, call.2.kind)) =
        state.consumed.filterMap Message.call) : Logged log state
  | within {earlier message} (consumed : state.consumed = earlier ++ [message])
      (tells : Telling message state.forward)
      (told : log.map (fun call => (call.1, call.2.kind)) = earlier.filterMap Message.call) :
      Logged log state

/-- Handling a transaction calls the closure with what the transaction tells, or not at all. -/
theorem handle_tells (state : ServerState) (body : Transaction) :
    (∃ tr last, (state.handle body).forward = .calling tr last ∧ body.told = some tr.kind) ∨
      body.told = none ∧ ∀ tr last, (state.handle body).forward ≠ .calling tr last := by
  cases body with
  | frame frame token =>
      cases frame with
      | data frame => exact .inl ⟨_, _, rfl, rfl⟩
      | headers frame => exact .inl ⟨_, _, rfl, rfl⟩
      | settings settings =>
          refine .inr ⟨rfl, fun tr last => ?_⟩
          simp only [ServerState.handle, ServerState.handleFrame]
          split
          · simp
          · rw [sendUnwrap_forward]
            split <;> simp
      | _ => exact .inr ⟨rfl, by simp [ServerState.handle, ServerState.handleFrame]⟩
  | linkChanged flags token =>
      simp only [ServerState.handle, ServerState.handleLinkChanged, Transaction.told]
      split
      next arm =>
        refine .inr ⟨by simp [arm], fun tr last => ?_⟩
        split <;> simp
      next arm => exact .inl ⟨_, _, rfl, by simp only [arm, if_true]; rfl⟩
      next arm => exact .inr ⟨by simp [arm], by simp⟩
  | serverChanged flags =>
      by_cases exited : flags = .acceptLoopExited
      · exact .inl ⟨.serverChanged .forwardLoopExited, true, by simp [ServerState.handle, exited],
          by simp [Transaction.told, exited, Transaction.kind]⟩
      · exact .inr ⟨by simp [Transaction.told, exited], by simp [ServerState.handle, exited]⟩
  | newLink ref => exact .inl ⟨_, _, rfl, by simp [Transaction.told, Transaction.kind]⟩
  | bytes data token => exact .inl ⟨_, _, rfl, rfl⟩
  | clientChanged flags token => exact .inl ⟨_, _, rfl, rfl⟩

theorem callOf_idle {label : ServerLabel} (idle : ∀ tr last, state.forward ≠ .calling tr last) :
    callOf (state, label) = [] := by
  unfold callOf
  split
  next before same =>
    cases same
    split
    next tr last pc => exact absurd pc (idle tr last)
    next => rfl
  next => rfl

/-- Only the forward loop calls the closure. -/
theorem callOf_other {label : ServerLabel} (other : label ≠ .forward) :
    callOf (state, label) = [] := by
  unfold callOf
  split
  next before same =>
    cases same
    exact absurd rfl other
  next => rfl

/-- Handling a message keeps the log in step with what was consumed. -/
theorem logged_of_handled {log : List Callback} (logged : Logged log state) {message : Message}
    (pc : state.forward = .handling message) :
    Logged (log ++ callOf (state, .forward)) (state.handle message.body) := by
  rw [callOf_idle (by simp [pc]), List.append_nil]
  cases logged with
  | between idle silent told => rw [pc] at idle; cases idle
  | @within earlier current consumed tells told =>
      rw [pc] at tells
      cases tells
      have same := (handled_forward pc).2
      rcases handle_tells state message.body with ⟨tr, last, calling, kind⟩ | ⟨untold, silent⟩
      · refine .within (same.trans consumed) ?_ told
        rw [calling]
        exact .calling (by simp [Message.call, kind])
      · refine .between (handle_move state message.body).free silent ?_
        rw [told, same, consumed, List.filterMap_append]
        simp [Message.call, untold]

/-- Every step keeps the log in step with the consumed messages. -/
theorem logged_of_step {log : List Callback} (logged : Logged log state) {label : ServerLabel}
    (taken : (serverMachine parse).step state label = some after) :
    Logged (log ++ callOf (state, label)) after := by
  by_cases forward : label = .forward
  · subst forward
    cases forward_move taken with
    | @received message channel pc receives =>
        cases logged with
        | between idle silent told =>
            rw [callOf_idle silent, List.append_nil]
            exact .within rfl .handling told
        | within consumed tells told => rw [pc] at tells; cases tells
    | @handled message pc => exact logged_of_handled logged pc
    | @acknowledged token pc =>
        cases logged with
        | between idle silent told =>
            rw [callOf_idle silent, List.append_nil]
            refine .between ?_ (fun tr last => ?_) (by rw [sendUnwrap_consumed]; exact told)
            · rw [sendUnwrap_forward]
              split <;> rfl
            · rw [sendUnwrap_forward]
              split <;> simp
        | within consumed tells told => rw [pc] at tells; cases tells
    | @called tr last pc =>
        cases logged with
        | between idle silent told => exact absurd pc (silent tr last)
        | @within earlier message consumed tells told =>
            rw [pc] at tells
            cases tells with
            | calling calls =>
                have call : callOf (state, .forward) = [(message.subject, tr)] := by
                  simp [callOf, pc, consumed]
                refine .between (by cases last <;> rfl) (by cases last <;> simp) ?_
                rw [call, List.map_append, told]
                simp only [consumed, List.filterMap_append, List.filterMap_cons, calls]
                rfl
  · have kept := (step_effect taken forward).2
    rw [callOf_other forward, List.append_nil]
    cases logged with
    | between idle silent told =>
        exact .between (kept.forward ▸ idle) (kept.forward ▸ silent) (kept.consumed ▸ told)
    | within consumed tells told =>
        exact .within (kept.consumed ▸ consumed) (kept.forward ▸ tells) told

theorem callbackLog_snoc (trace : List (ServerState × ServerLabel)) (state : ServerState)
    (label : ServerLabel) :
    callbackLog (trace ++ [(state, label)]) = callbackLog trace ++ callOf (state, label) := by
  simp [callbackLog, List.flatMap_append]

/-- In every run the log is what the consumed messages call for. -/
theorem logged_of_run {trace : List (ServerState × ServerLabel)}
    (run : (serverMachine parse).Run .start trace state) : Logged (callbackLog trace) state := by
  refine @Machine.Run.traceInvariant _ _ _ (fun trace state => Logged (callbackLog trace) state)
    _ _ _ run ?_ ?_
  · exact .between rfl (by simp [ServerState.start]) rfl
  · intro trace before label after _ logged taken
    exact callbackLog_snoc trace before label ▸ logged_of_step logged taken

/-- What the closure has been called with. -/
structure Called (log : List Callback) (state : ServerState) : Prop where
  called : state.callbacks = log.map Prod.snd ++
    if state.main = .returned then [.serverChanged .terminated] else []
  returned : state.main = .returned → state.forward = .exited

theorem Called.kept {log : List Callback} (called : Called log state)
    (callbacks : after.callbacks = state.callbacks) (main : after.main = state.main)
    (forward : after.forward = state.forward) : Called log after where
  called := by rw [callbacks, main, called.called]
  returned returned := by rw [forward, called.returned (main ▸ returned)]

/-- Before the end of the forward loop only its own calls count. -/
theorem Called.running {log more : List Callback} (called : Called log state)
    (running : state.forward ≠ .exited) (main : after.main = state.main)
    (callbacks : after.callbacks = state.callbacks ++ more.map Prod.snd) :
    Called (log ++ more) after := by
  have waits : state.main ≠ .returned := fun returned => running (called.returned returned)
  refine ⟨?_, fun returned => absurd (main ▸ returned) waits⟩
  rw [callbacks, called.called, main, if_neg waits, List.append_nil, List.append_nil,
    List.map_append]

theorem called_of_step {log : List Callback} (called : Called log state) {label : ServerLabel}
    (taken : (serverMachine parse).step state label = some after) :
    Called (log ++ callOf (state, label)) after := by
  cases step_move taken with
  | forwarded move =>
      cases forward_turn move with
      | received pc => exact called.running (by simp [pc]) rfl (by simp [callOf, pc])
      | handled pc move =>
          exact called.running (by simp [pc]) move.frame.main
            (by simp [callOf, pc, move.frame.callbacks])
      | acknowledged pc move =>
          exact called.running (by simp [pc]) move.frame.main
            (by simp [callOf, pc, move.frame.callbacks])
      | called pc => exact called.running (by simp [pc]) rfl (by simp [callOf, pc])
  | looped mover step =>
      rw [callOf_other (by rintro rfl; cases mover), List.append_nil]
      exact called.kept step.frame.callbacks step.frame.main step.frame.forward
  | acceptor idle other move =>
      rw [callOf_other other, List.append_nil]
      cases move with
      | awaited place =>
          refine ⟨?_, by simp⟩
          rw [called.called, place]
          rfl
      | terminated place exited =>
          refine ⟨?_, fun _ => exited⟩
          simp [called.called, place]
      | _ => exact called.kept rfl rfl rfl
  | user idle other move =>
      rw [callOf_other other, List.append_nil]
      exact called.kept move.frame.callbacks move.frame.main move.frame.forward

/-- In every run the log is what the closure was called with. -/
theorem called_of_run {trace : List (ServerState × ServerLabel)}
    (run : (serverMachine parse).Run .start trace state) : Called (callbackLog trace) state := by
  refine @Machine.Run.traceInvariant _ _ _ (fun trace state => Called (callbackLog trace) state)
    _ _ _ run ?_ ?_
  · exact ⟨rfl, by simp [ServerState.start]⟩
  · intro trace before label after _ called taken
    exact callbackLog_snoc trace before label ▸ called_of_step called taken

/-- In every run in which nothing overtakes a registration, the callbacks of every link come in
order. -/
theorem callbackOrder {trace : List (ServerState × ServerLabel)}
    (run : (serverMachine parse).Run .start trace state)
    (guarded : Machine.Guarded RegisteredFirst trace) : CallbackOrder trace state := by
  refine ⟨(called_of_run run).called, ?_⟩
  have ordered := (run.invariant guarded orderInv_start orderInv_of_step).ordered
  cases logged_of_run run with
  | between idle silent told =>
      rw [ServerState.history, List.filterMap_append] at ordered
      exact told ▸ ordered.of_prefix
  | within consumed tells told =>
      rw [ServerState.history, consumed, List.append_assoc, List.filterMap_append] at ordered
      exact told ▸ ordered.of_prefix

instance (state : ServerState) : (label : ServerLabel) → Decidable (RegisteredFirst state label)
  | .read ref => inferInstanceAs (Decidable (state.overtakes ref .reader = false))
  | .write ref _ => inferInstanceAs (Decidable (state.overtakes ref .writer = false))
  | .bind _ | .connect _ _ | .endAccept | .timeout | .register | .announceExit | .forward
  | .main | .shutdown | .find _ | .drop _ | .send _ _ | .sendTo _ _ =>
      inferInstanceAs (Decidable True)

/-- A peer that sends the preface and a HEADERS frame. -/
def headersPeer : TcpStream :=
  ⟨Source.ofContent (Consts.http20Preface ++ [0, 0, 1, 1, 5, 0, 0, 0, 1, 0x82]) none, 1, []⟩

/-- The link is registered before its frame is delivered. -/
def attachedThenHeaders : List ServerLabel :=
  [.bind true, .connect ⟨7⟩ headersPeer, .register, .forward, .forward, .forward, .read ⟨0⟩,
    .read ⟨0⟩, .read ⟨0⟩, .forward, .forward, .forward]

/-- The frame is delivered and forwarded before the accept loop has sent `NewLink`. -/
def headersOvertake : List ServerLabel :=
  [.bind true, .connect ⟨7⟩ headersPeer, .read ⟨0⟩, .read ⟨0⟩, .read ⟨0⟩, .forward, .forward,
    .forward]

/-- A link is attached, and its HEADERS frame comes after. -/
theorem attachedThenHeaders_ordered :
    ∃ state trace, (serverMachine fun _ => .incomplete).Run .start trace state ∧
      state.callbacks.length = 2 ∧ CallbackOrder trace state := by
  obtain ⟨state, run, called⟩ := @Machine.run_of_exec_any _ _ (serverMachine fun _ => .incomplete)
    .start attachedThenHeaders (fun state => state.callbacks.length = 2) (by decide)
  have guarded : Machine.Guarded RegisteredFirst
      ((serverMachine fun _ => .incomplete).traceOf .start attachedThenHeaders) := by
    unfold Machine.Guarded
    decide
  exact ⟨state, _, run, by simpa using called, callbackOrder run guarded⟩

/-- The closure gets the frame of a link that it has not been told of. -/
theorem headersOvertake_not_ordered :
    ∃ state trace, (serverMachine fun _ => .incomplete).Run .start trace state ∧
      ¬ CallbackOrder trace state := by
  obtain ⟨state, run, -⟩ := @Machine.run_of_exec_any _ _ (serverMachine fun _ => .incomplete)
    .start headersOvertake (fun state => state.callbacks.length = 1) (by decide)
  refine ⟨state, _, run, fun order => ?_⟩
  have first := order.ordered.attachedFirst [] [] ⟨0⟩ .content (by decide) (.inl rfl)
  exact absurd first List.not_mem_nil

end H2l
