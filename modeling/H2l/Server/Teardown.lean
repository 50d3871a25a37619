import H2l.Server.Inbound

/-!
# Who closes a link

A link's write loop leaves because a write failed, because its own read loop has left, or
because user code sent it a notice; a link is taken out of the table once both of its
loops have left. `closes_own` says that nothing else ever closes a link: no other link's
end, whatever tokens are reused.
-/

namespace H2l

open Base

/-- The loop has left its frame loop, and not by unwinding. -/
def ReaderPc.left : ReaderPc → Bool
  | closing _ => true
  | _ => false

/-- The flags that an exit sequence carries. -/
def ExitPc.held : ExitPc → List LinkFlags
  | store loaded => [loaded]
  | announce flags => [flags]
  | _ => []

/-- The flags that the read loop has loaded and not yet used. -/
def ReaderPc.held : ReaderPc → List LinkFlags
  | closing pc => pc.held
  | _ => []

/-- The flags that the write loop has loaded and not yet used. -/
def WriterPc.held : WriterPc → List LinkFlags
  | closing pc => pc.held
  | _ => []

namespace LinkState

/-- The loop of a side has left. -/
def sideLeft (link : LinkState) : Side → Bool
  | .reader => link.reader.left
  | .writer => link.writer.left

/-- The flags tell of no loop that has not left. -/
def Truthful (link : LinkState) (flags : LinkFlags) : Prop :=
  ∀ side : Side, FlagSet.contains flags side.closed → link.sideLeft side

/-- Neither the word nor a loop tells of a loop that has not left. -/
structure Honest (link : LinkState) : Prop where
  word : link.Truthful (Link.flags link.word)
  reader : ∀ flags ∈ link.reader.held, link.Truthful flags
  writer : ∀ flags ∈ link.writer.held, link.Truthful flags

end LinkState

/-- The loop of a side of a link has left. -/
def ServerState.hasLeft (state : ServerState) (ref : LinkRef) (side : Side) : Prop :=
  ∃ link, state.link ref = some link ∧ link.sideLeft side

/-- Why the write loop of a link has left, or will. -/
inductive LeaveCause (trace : List (ServerState × ServerLabel)) (state : ServerState)
    (ref : LinkRef) : Prop where
  | failed {step} (member : step ∈ trace) (fails : step.2 = .write ref false)
      (hands : handedBy ref step ≠ [])
  | closed (left : state.hasLeft ref .reader)
  | asked {step tr} (member : step ∈ trace) (sends : tr ∈ userSends ref step)
      (closes : tr.closes)

/-- What a link's own messages say of its loops is true. -/
def ServerState.Truthful (state : ServerState) (message : Message) : Prop :=
  ∀ ref flags token, message.sender = some ref → message.body = .linkChanged flags token →
    ∀ side : Side, FlagSet.contains flags side.closed → state.hasLeft ref side

/-- Links are closed by their own ends, or by user code. -/
structure ClosesOwn (trace : List (ServerState × ServerLabel)) (state : ServerState) : Prop where
  left : ∀ ref, state.hasLeft ref .writer → LeaveCause trace state ref
  told : ∀ message ∈ state.history, state.Truthful message
  /-- A link that was put into the table stays there until both of its loops have left. -/
  listed : ∀ ref, (∃ message ∈ state.applied, message.body = .newLink ref) →
    state.links (state.tokenOf ref) = some ref ∨ ∀ side, state.hasLeft ref side

variable {parse : HttpParser} {state after : ServerState}
  {trace : List (ServerState × ServerLabel)}

/-- Decoding a word finds no flag that is not there. -/
theorem contains_of_flags {set flag : LinkFlags}
    (has : FlagSet.contains (Link.flags set.bits) flag) : FlagSet.contains set flag := by
  have same : ∀ other : LinkFlags, set.bits = other.bits → FlagSet.contains other flag →
      FlagSet.contains set flag := fun other bits among => by rwa [FlagSet.ext bits]
  unfold Link.flags at has
  split at has
  next bits => exact same _ bits has
  split at has
  next bits => exact same _ bits has
  split at has
  next bits => exact same _ bits has
  split at has
  next bits => exact same _ bits has
  split at has
  next bits => exact same _ bits has
  simp only [FlagSet.contains, LinkFlags.none, beq_iff_eq] at has ⊢
  have empty : flag.bits = 0#32 := by simpa using has.symm
  simp [empty]

/-- The flag of the other side is not this side's. -/
theorem closed_apart (side : Side) : side.other.closed.bits &&& side.closed.bits = 0 := by
  cases side <;> decide

/-- A loop that stores its own flag tells of no other loop. -/
theorem Truthful_union {link : LinkState} {flags : LinkFlags} {side : Side}
    (truthful : link.Truthful flags) (left : link.sideLeft side) :
    link.Truthful (Link.flags (FlagSet.union flags side.closed).bits) := by
  intro other has
  have among := contains_of_flags has
  rcases side.eq_or_other other with rfl | rfl
  · exact left
  · refine truthful _ ?_
    have apart := closed_apart side.other
    rw [Side.other_other] at apart
    rwa [FlagSet.contains_union_of_disjoint flags apart] at among

/-- What a step of an exit sequence leaves and sends is as truthful as what it found. -/
theorem truthful_advance {link : LinkState} {side : Side} {pc next : ExitPc} {word word' : Word}
    {message : Option LinkFlags} (left : link.sideLeft side)
    (found : link.Truthful (Link.flags word)) (held : ∀ flags ∈ pc.held, link.Truthful flags)
    (advances : pc.advance side word = some (next, word', message)) :
    link.Truthful (Link.flags word') ∧ (∀ flags ∈ next.held, link.Truthful flags) ∧
      ∀ flags ∈ message, link.Truthful flags := by
  cases pc with
  | load =>
      cases advances
      exact ⟨found, by simpa [ExitPc.held] using found, by simp⟩
  | store loaded =>
      cases advances
      exact ⟨Truthful_union (held loaded (by simp [ExitPc.held])) left, by simp [ExitPc.held],
        by simp⟩
  | reload =>
      cases advances
      exact ⟨found, by simpa [ExitPc.held] using found, by simp⟩
  | announce flags =>
      cases advances
      exact ⟨found, by simp [ExitPc.held], by simpa using held flags (by simp [ExitPc.held])⟩
  | finished => cases advances

/-- A loop that has left stays away. -/
theorem LinkMove.sideLeft {link next : LinkState} {sent : Option Transaction}
    (move : LinkMove parse link next sent) {side : Side} (left : link.sideLeft side) :
    next.sideLeft side := by
  cases side with
  | writer => exact move.left left
  | reader =>
      cases move with
      | shaken pc | shakeUnwound pc | fetched pc | readEnded pc | readUnwound pc | delivered pc =>
          simp only [LinkState.sideLeft, pc] at left
          cases left
      | readerExits => rfl
      | _ => exact left

theorem LinkMove.truthful {link next : LinkState} {sent : Option Transaction}
    (move : LinkMove parse link next sent) {flags : LinkFlags} (truthful : link.Truthful flags) :
    next.Truthful flags :=
  fun side has => move.sideLeft (truthful side has)

theorem held_received (tr : Transaction) : (WriterPc.received tr).held = [] := by
  unfold WriterPc.received
  split
  any_goals split
  all_goals rfl

/-- Every step of a link keeps it honest, and sends what is true. -/
theorem LinkMove.honest {link next : LinkState} {sent : Option Transaction}
    (move : LinkMove parse link next sent) (honest : link.Honest) :
    next.Honest ∧ ∀ flags token, sent = some (.linkChanged flags token) → next.Truthful flags := by
  have word := move.truthful honest.word
  have reader := fun flags held => move.truthful (honest.reader flags held)
  have writer := fun flags held => move.truthful (honest.writer flags held)
  have told : ∀ {message : Option LinkFlags} {own : Token},
      (∀ flags ∈ message, next.Truthful flags) →
      ∀ flags token, (message.map fun flags => Transaction.linkChanged flags own) =
        some (.linkChanged flags token) → next.Truthful flags := by
    intro message own every flags token same
    obtain ⟨found, member, same⟩ := Option.map_eq_some_iff.mp same
    cases same
    exact every _ member
  cases move with
  | readerExits place advances =>
      rw [place] at reader
      obtain ⟨word, held, sends⟩ := @truthful_advance _ .reader _ _ _ _ _ rfl word reader advances
      exact ⟨⟨word, held, writer⟩, told sends⟩
  | writerExits place advances =>
      rw [place] at writer
      obtain ⟨word, held, sends⟩ := @truthful_advance _ .writer _ _ _ _ _ rfl word writer advances
      exact ⟨⟨word, reader, held⟩, told sends⟩
  | @received tr => exact ⟨⟨word, reader, by simp [held_received]⟩, by simp⟩
  | wrote | writeEnded => exact ⟨⟨word, reader, by simp [WriterPc.held, ExitPc.held]⟩, by simp⟩
  | queued => exact ⟨⟨word, reader, writer⟩, by simp⟩
  | _ => exact ⟨⟨word, by simp [ReaderPc.held, ExitPc.held], writer⟩, by simp⟩

/-- What a step makes of one link. -/
inductive LinkTurn (parse : HttpParser) (state : ServerState) (label : ServerLabel)
    (ref : LinkRef) : LinkState → Prop where
  | accepted {token stream} (connects : label = .connect token stream) :
      LinkTurn parse state label ref (.new token stream)
  | kept {link} (found : state.link ref = some link) : LinkTurn parse state label ref link
  | read {link next sent} (moves : label = .read ref) (found : state.link ref = some link)
      (turn : ReadTurn parse link next sent) : LinkTurn parse state label ref next
  | wrote {written link next sent} (moves : label = .write ref written)
      (found : state.link ref = some link) (turn : WriteTurn link written next sent) :
      LinkTurn parse state label ref next
  | queued {link tr outgoing} (found : state.link ref = some link)
      (sends : state.sends label = some (ref, tr)) (takes : tr ∈ acceptedBy ref (state, label))
      (items : outgoing.items = link.outgoing.items ++ [tr]) :
      LinkTurn parse state label ref { link with outgoing }

/-- A send to a link, seen from any link. -/
theorem linkTurn_of_pushed {label : ServerLabel} {ref : LinkRef} {next : LinkState}
    (there : (state.pushed (state.sends label))[ref.index]? = some next) :
    LinkTurn parse state label ref next := by
  cases sends : state.sends label with
  | none =>
      rw [sends] at there
      exact .kept there
  | some send =>
      obtain ⟨target, tr⟩ := send
      rw [sends] at there
      simp only [ServerState.pushed, ServerState.push] at there
      cases found : state.link target with
      | none =>
          simp only [found] at there
          exact .kept there
      | some link =>
          cases queues : link.send tr with
          | error error =>
              simp only [found, queues] at there
              exact .kept there
          | ok queued =>
              simp only [found, queues, ServerState.setLink] at there
              rw [link_set (link_lt found)] at there
              by_cases own : ref = target
              · rw [if_pos own] at there
                cases there
                subst own
                obtain ⟨alive, outgoing, sent, rfl⟩ := send_ok queues
                refine .queued found sends ?_ (Channel.trySend_items sent)
                simp [acceptedBy, sends, ServerState.takes, found, queues, Except.isOk,
                  Except.toBool]
              · rw [if_neg own] at there
                exact .kept there

/-- A step of one loop is a turn of its link, and leaves the other links alone. -/
theorem linkTurn_of_loop {label : ServerLabel} {mover ref : LinkRef} {next : LinkState}
    (mover : label.loopOf = some mover)
    (taken : (serverMachine parse).step state label = some after)
    (there : after.link ref = some next) : LinkTurn parse state label ref next := by
  cases loop_turn mover taken with
  | read found turn items =>
      simp only [ServerState.link] at there
      rw [link_set (link_lt found)] at there
      split at there
      next own =>
        cases there
        subst own
        exact .read rfl found turn
      next => exact .kept there
  | wrote found turn items =>
      simp only [ServerState.link] at there
      rw [link_set (link_lt found)] at there
      split at there
      next own =>
        cases there
        subst own
        exact .wrote rfl found turn
      next => exact .kept there

/-- Every step, seen from one link. -/
theorem link_turn {label : ServerLabel} {ref : LinkRef} {next : LinkState}
    (taken : (serverMachine parse).step state label = some after)
    (there : after.link ref = some next) : LinkTurn parse state label ref next := by
  cases label with
  | read | write => exact linkTurn_of_loop rfl taken there
  | connect token stream =>
      simp only [serverMachine, ServerState.step, ServerState.acceptStep, ServerState.userStep,
        Option.or_none] at taken
      split at taken <;> cases taken
      simp only [ServerState.link] at there
      by_cases old : ref.index < state.created.length
      · rw [List.getElem?_append_left old] at there
        exact .kept there
      · rw [List.getElem?_append_right (Nat.le_of_not_lt old)] at there
        obtain rfl : next = .new token stream := List.mem_singleton.mp (List.mem_of_getElem? there)
        exact .accepted rfl
  | _ =>
      refine linkTurn_of_pushed ?_
      rw [← pushed_of_step rfl (by simp) taken]
      exact there

theorem ReadTurn.move {link next : LinkState} {sent : Option Transaction}
    (turn : ReadTurn parse link next sent) : LinkMove parse link next sent := by
  cases turn with
  | shaken pc => exact .shaken pc rfl
  | shakeUnwound pc unwinds => exact .shakeUnwound pc (Prod.ext unwinds rfl)
  | fetched pc reads => exact .fetched pc reads
  | ended pc reads => exact .readEnded pc reads
  | unwound pc reads => exact .readUnwound pc reads
  | delivered pc => exact .delivered pc
  | exits place advances => exact .readerExits place advances

theorem WriteTurn.move (parse : HttpParser) {link next : LinkState} {written : Bool}
    {sent : Option Transaction} (turn : WriteTurn link written next sent) :
    LinkMove parse link next sent := by
  cases turn with
  | received pc receives => exact .received pc receives
  | wrote pc => exact .wrote pc
  | failed pc fails =>
      simp only [Bool.or_eq_false_iff] at fails
      exact .writeEnded pc fails.2
  | exits place advances => exact .writerExits place advances

theorem ReadTurn.kept {link next : LinkState} {sent : Option Transaction}
    (turn : ReadTurn parse link next sent) :
    next.outgoing = link.outgoing ∧ next.writer = link.writer := by
  cases turn <;> exact ⟨rfl, rfl⟩

theorem hasLeft_of_step {label : ServerLabel} {ref : LinkRef} {side : Side}
    (left : state.hasLeft ref side)
    (taken : (serverMachine parse).step state label = some after) : after.hasLeft ref side := by
  obtain ⟨link, found, left⟩ := left
  obtain ⟨next, there, rfl | ⟨sent, move⟩⟩ := (linksMove_of_move (step_move taken)).link found
  · exact ⟨next, there, left⟩
  · exact ⟨next, there, move.sideLeft left⟩

/-- Flags that are true of a link stay true. -/
theorem truthful_of_step {label : ServerLabel} {message : Message}
    (truthful : state.Truthful message)
    (taken : (serverMachine parse).step state label = some after) : after.Truthful message :=
  fun ref flags token sender body side has =>
    hasLeft_of_step (truthful ref flags token sender body side has) taken

/-- A cause stays one in a longer run. -/
theorem LeaveCause.step {label : ServerLabel} {ref : LinkRef} (cause : LeaveCause trace state ref)
    (taken : (serverMachine parse).step state label = some after) :
    LeaveCause (trace ++ [(state, label)]) after ref := by
  cases cause with
  | failed member fails hands => exact .failed (List.mem_append_left _ member) fails hands
  | closed left => exact .closed (hasLeft_of_step left taken)
  | asked member sends closes => exact .asked (List.mem_append_left _ member) sends closes

/-- What the causes rest on: links are honest, their messages are true, and every notice that waits
for a write loop has a cause. -/
structure TeardownInv (trace : List (ServerState × ServerLabel)) (state : ServerState) : Prop where
  links : ∀ ref link, state.link ref = some link → link.Honest
  told : ∀ message ∈ state.history, state.Truthful message
  notices : ∀ ref link, state.link ref = some link → ∀ tr ∈ link.outgoing.items, tr.closes →
    LeaveCause trace state ref
  left : ∀ ref, state.hasLeft ref .writer → LeaveCause trace state ref

theorem honest_new (token : Token) (stream : TcpStream) : (LinkState.new token stream).Honest where
  word side has := by
    have clear : FlagSet.contains (Link.flags LinkFlags.none.bits) side.closed = false := by
      cases side <;> decide
    simp only [LinkState.new, clear] at has
    cases has
  reader _ held := absurd held List.not_mem_nil
  writer _ held := absurd held List.not_mem_nil

theorem LinkTurn.honest {label : ServerLabel} {ref : LinkRef} {next : LinkState}
    (turn : LinkTurn parse state label ref next)
    (links : ∀ ref link, state.link ref = some link → link.Honest) : next.Honest := by
  cases turn with
  | accepted => exact honest_new _ _
  | kept found => exact links ref _ found
  | read _ found turn => exact (turn.move.honest (links ref _ found)).1
  | wrote _ found turn => exact ((turn.move parse).honest (links ref _ found)).1
  | queued found =>
      have honest := links ref _ found
      exact ⟨honest.word, honest.reader, honest.writer⟩

/-- What a step puts on the shared channel is true. -/
theorem told_of_turn {label : ServerLabel} (inv : TeardownInv trace state)
    (taken : (serverMachine parse).step state label = some after) :
    ∀ message ∈ after.history, after.Truthful message := by
  have stays : ∀ message ∈ state.history, after.Truthful message :=
    fun message member => truthful_of_step (inv.told message member) taken
  cases loops : label.loopOf with
  | none =>
      obtain ⟨sent, posting, history⟩ := posting_of_move (step_move taken)
      intro message member
      rw [history] at member
      rcases List.mem_append.mp member with before | added
      · exact stays message before
      · cases posting with
        | silent => cases added
        | posted mover => cases loops.symm.trans mover
        | registered | announced =>
            obtain rfl := List.mem_singleton.mp added
            rintro ref flags token ⟨⟩
  | some mover =>
      have sends : ∀ {link next : LinkState} {sent : Option Transaction} {channel},
          state.link mover = some link → LinkMove parse link next sent →
          channel.items = state.channel.items ++ (sent.map fun body => ⟨body, some mover⟩).toList →
          after = { state with created := state.created.set mover.index next, channel } →
          ∀ message ∈ after.history, after.Truthful message := by
        rintro link next sent channel found move items rfl message member
        simp only [ServerState.history, items, ← List.append_assoc] at member
        rcases List.mem_append.mp member with before | added
        · exact stays message before
        · obtain ⟨body, carries, rfl⟩ := Option.map_eq_some_iff.mp (Option.mem_toList.mp added)
          rintro ref flags token ⟨⟩ rfl side has
          have true_of := (move.honest (inv.links mover link found)).2 flags token carries
          exact ⟨next, (link_set (link_lt found)).trans (if_pos rfl), true_of side has⟩
      cases loop_turn loops taken with
      | read found turn items =>
          cases loops
          exact sends found turn.move items rfl
      | wrote found turn items =>
          cases loops
          exact sends found (turn.move parse) items rfl

/-- What the forward loop sends that closes a link is the notice of the link's own reader. -/
theorem closed_of_forward (reachable : (serverMachine parse).Reachable state)
    (told : ∀ message ∈ state.history, state.Truthful message) {ref : LinkRef} {tr : Transaction}
    (sends : state.sends .forward = some (ref, tr)) (closes : tr.closes) :
    state.hasLeft ref .reader := by
  simp only [ServerState.sends, Option.bind_eq_some_iff, Option.map_eq_some_iff,
    Prod.mk.injEq] at sends
  obtain ⟨⟨token, notice⟩, noticing, target, listed, rfl, rfl⟩ := sends
  dsimp only at listed
  unfold ServerState.noticing at noticing
  split at noticing
  next message pc =>
    have last := last_of_handling reachable pc
    have member : message ∈ state.history :=
      List.mem_append_left _ (List.mem_of_getLast? last)
    obtain ⟨body, sender⟩ := message
    cases body with
    | linkChanged flags own =>
        simp only [Transaction.notice] at noticing
        split at noticing <;> cases noticing
        have from_own : sender = some target :=
          sender_of_listed reachable last rfl listed
        exact told _ member target flags _ from_own rfl .reader closes
    | frame carried own =>
        cases carried with
        | settings asked =>
            simp only [Transaction.notice] at noticing
            split at noticing <;> cases noticing
            cases closes
        | _ => cases noticing
    | _ => cases noticing
  next own pc =>
    cases noticing
    cases closes
  next => cases noticing

theorem closes_of_left {tr : Transaction} (left : (WriterPc.received tr).left) : tr.closes := by
  unfold WriterPc.received at left
  split at left
  next => cases left
  next => cases left
  next flags token =>
    split at left
    next closed => exact closed
    next => cases left
  next => cases left

/-- A notice that comes to a link has a cause. -/
theorem notices_of_turn {label : ServerLabel} (reachable : (serverMachine parse).Reachable state)
    (inv : TeardownInv trace state)
    (taken : (serverMachine parse).step state label = some after) {ref : LinkRef}
    {next : LinkState} (there : after.link ref = some next) {tr : Transaction}
    (queued : tr ∈ next.outgoing.items) (closes : tr.closes) :
    LeaveCause (trace ++ [(state, label)]) after ref := by
  have before : ∀ {link : LinkState}, state.link ref = some link → tr ∈ link.outgoing.items →
      LeaveCause (trace ++ [(state, label)]) after ref :=
    fun found member => (inv.notices ref _ found tr member closes).step taken
  cases link_turn taken there with
  | accepted => cases queued
  | kept found => exact before found queued
  | read moves found turn => exact before found (turn.kept.1 ▸ queued)
  | wrote moves found turn =>
      cases turn with
      | received pc receives =>
          refine before found ?_
          rw [Channel.recv_items receives]
          exact List.mem_cons_of_mem _ queued
      | wrote | failed | exits => exact before found queued
  | queued found sends takes items =>
      rw [items] at queued
      rcases List.mem_append.mp queued with old | new
      · exact before found old
      · obtain rfl := List.mem_singleton.mp new
        by_cases forward : label = .forward
        · subst forward
          exact .closed (hasLeft_of_step (closed_of_forward reachable inv.told sends closes) taken)
        · refine .asked (List.mem_append_right _ (List.mem_singleton_self _)) ?_ closes
          rwa [userSends_of_ne forward]

/-- A write loop that leaves has a cause. -/
theorem left_of_turn {label : ServerLabel} (inv : TeardownInv trace state)
    (taken : (serverMachine parse).step state label = some after) {ref : LinkRef}
    (left : after.hasLeft ref .writer) : LeaveCause (trace ++ [(state, label)]) after ref := by
  obtain ⟨next, there, left⟩ := left
  have before : ∀ {link : LinkState}, state.link ref = some link → link.writer.left →
      LeaveCause (trace ++ [(state, label)]) after ref :=
    fun found earlier => (inv.left ref ⟨_, found, earlier⟩).step taken
  cases link_turn taken there with
  | accepted => cases left
  | kept found => exact before found left
  | read moves found turn => exact before found (turn.kept.2 ▸ left)
  | queued found => exact before found left
  | @wrote written link next sent moves found turn =>
      cases turn with
      | @received tr outgoing pc receives =>
          refine (inv.notices ref link found tr ?_ (closes_of_left left)).step taken
          rw [Channel.recv_items receives]
          exact List.mem_cons_self
      | wrote => cases left
      | @failed tr pc fails =>
          simp only [Bool.or_eq_false_iff, List.isEmpty_eq_false_iff] at fails
          obtain ⟨rfl, emits⟩ := fails
          refine .failed (List.mem_append_right _ (List.mem_singleton_self _)) moves ?_
          subst moves
          simpa [handedBy, found, LinkState.hand, pc] using emits
      | exits place => exact before found (by rw [place]; rfl)

/-- Every run keeps the invariant of the causes. -/
theorem teardown_of_run (run : (serverMachine parse).Run .start trace state) :
    TeardownInv trace state := by
  refine run.traceInvariant ⟨?_, ?_, ?_, ?_⟩ ?_
  · rintro ref link ⟨⟩
  · exact fun message member => absurd member List.not_mem_nil
  · rintro ref link ⟨⟩
  · rintro ref ⟨link, ⟨⟩, -⟩
  · intro trace before label after prior inv taken
    have reachable : (serverMachine parse).Reachable before := ⟨_, trace, rfl, prior⟩
    exact ⟨fun ref link there => (link_turn taken there).honest inv.links,
      told_of_turn inv taken,
      fun ref link there tr queued closes =>
        notices_of_turn reachable inv taken there queued closes,
      fun ref left => left_of_turn inv taken left⟩

/-- A link that was put into the table is there, or both of its loops have left. -/
def ServerState.Listing (state : ServerState) : Prop :=
  ∀ ref, (∃ message ∈ state.applied, message.body = .newLink ref) →
    state.links (state.tokenOf ref) = some ref ∨ ∀ side, state.hasLeft ref side

/-- A step that leaves the table and what was registered. -/
theorem listing_of_kept {label : ServerLabel} (reachable : (serverMachine parse).Reachable state)
    (listing : state.Listing) (taken : (serverMachine parse).step state label = some after)
    (links : after.links = state.links)
    (applied : ∀ ref, (∃ message ∈ after.applied, message.body = .newLink ref) →
      ∃ message ∈ state.applied, message.body = .newLink ref) : after.Listing := by
  intro ref registered
  obtain ⟨start, trace, rfl, run⟩ := reachable
  obtain ⟨message, member, registers⟩ := applied ref registered
  have known := (tokenInv_of_run run).known message (mem_history_of_applied member) ref registers
  rw [(linksMove_of_move (step_move taken)).tokenOf known, links]
  exact (listing ref ⟨message, member, registers⟩).imp id
    fun left side => hasLeft_of_step (left side) taken

/-- A registration finds its place free. -/
theorem listing_of_registration {message : Message} {own : LinkRef}
    (run : (serverMachine parse).Run .start trace state) (listing : state.Listing)
    (pc : state.forward = .handling message) (registers : message.body = .newLink own)
    (taken : (serverMachine parse).step state .forward = some (state.handle message.body)) :
    (state.handle message.body).Listing := by
  have reachable : (serverMachine parse).Reachable state := ⟨_, trace, rfl, run⟩
  have inv := tokenInv_of_run run
  obtain ⟨earlier, standing⟩ := inv.applied
  have free : state.links (state.tokenOf own) = none := registers_free inv standing pc registers
  have applied := ((turned_handle parse pc).done reachable).2
  rintro ref ⟨other, member, registration⟩
  rw [applied] at member
  rw [registers] at taken ⊢
  simp only [ServerState.handle] at taken ⊢
  rcases List.mem_append.mp member with before | last
  · refine (listing ref ⟨other, before, registration⟩).imp (fun listed => ?_)
      fun left side => hasLeft_of_step (left side) taken
    have apart : state.tokenOf ref ≠ state.tokenOf own := by
      intro same
      rw [same, free] at listed
      cases listed
    exact (if_neg apart).trans listed
  · obtain rfl := List.mem_singleton.mp last
    cases registers.symm.trans registration
    exact .inl (if_pos rfl)

/-- A link is taken out of the table by a message of its own. -/
theorem listing_of_removal {message : Message} {token : Token}
    (run : (serverMachine parse).Run .start trace state) (listing : state.Listing)
    (pc : state.forward = .handling message)
    (detaches : message.body = .linkChanged .readWriteClosed token)
    (taken : (serverMachine parse).step state .forward =
      some { state.remove token with forward := .calling (.linkChanged .detached token) false })
    (applied : ∀ ref, (∃ message ∈ ServerState.applied { state.remove token with
        forward := .calling (.linkChanged .detached token) false },
        message.body = .newLink ref) → ∃ message ∈ state.applied, message.body = .newLink ref) :
    ServerState.Listing
      { state.remove token with forward := .calling (.linkChanged .detached token) false } := by
  have reachable : (serverMachine parse).Reachable state := ⟨_, trace, rfl, run⟩
  have member := ((turned_handle parse pc).done reachable).1
  intro ref registered
  rcases listing ref (applied ref registered) with listed | left
  · by_cases same : state.tokenOf ref = token
    · right
      have told := (teardown_of_run run).told message member
      have proper := proper_of_reachable reachable message member
      obtain ⟨body, sender⟩ := message
      cases detaches
      cases proper with
      | @changed _ own known =>
          have apart := detaches_own reachable pc
          rw [← same, listed] at apart
          intro side
          obtain rfl : ref = own := by simpa using apart
          refine hasLeft_of_step (told _ _ _ rfl rfl side ?_) taken
          cases side <;> decide
    · exact .inl ((if_neg same).trans listed)
  · exact .inr fun side => hasLeft_of_step (left side) taken

/-- A step of the forward loop keeps the listing. -/
theorem listing_of_forward (run : (serverMachine parse).Run .start trace state)
    (listing : state.Listing)
    (taken : (serverMachine parse).step state .forward = some after) : after.Listing := by
  have reachable : (serverMachine parse).Reachable state := ⟨_, trace, rfl, run⟩
  have same : after.applied = state.applied → ∀ ref,
      (∃ message ∈ after.applied, message.body = .newLink ref) →
        ∃ message ∈ state.applied, message.body = .newLink ref := by
    rintro applied ref registered
    rwa [applied] at registered
  cases forward_move taken with
  | received pc =>
      refine listing_of_kept reachable listing taken rfl (same ?_)
      simp [ServerState.applied, pc, ForwardPc.current]
  | @called tr last pc =>
      refine listing_of_kept reachable listing taken rfl (same ?_)
      cases last <;> simp [ServerState.applied, pc, ForwardPc.current]
  | @acknowledged token pc =>
      have moves : HandleMove state (.frame (.settings Settings.ack) token) _ :=
        @sendUnwrap_move state _ (.frame (.settings Settings.ack) token) _ .receiving rfl rfl
          (by simp)
      refine listing_of_kept reachable listing taken (sendUnwrap_links _ _ _ _) (same ?_)
      rw [ServerState.applied, ServerState.applied, moves.frame.consumed, moves.free, pc]
      rfl
  | @handled message pc =>
      obtain ⟨member, applied⟩ := (turned_handle parse pc).done reachable
      by_cases registration : ∃ own, message.body = .newLink own
      · obtain ⟨own, registers⟩ := registration
        exact listing_of_registration run listing pc registers taken
      · have old : ∀ ref,
            (∃ other ∈ (state.handle message.body).applied, other.body = .newLink ref) →
              ∃ other ∈ state.applied, other.body = .newLink ref := by
          rintro ref ⟨other, member, registers⟩
          rw [applied] at member
          rcases List.mem_append.mp member with before | last
          · exact ⟨other, before, registers⟩
          · rw [List.mem_singleton.mp last] at registers
            exact absurd ⟨ref, registers⟩ registration
        clear same applied
        have moves := handle_move state message.body
        generalize state.handle message.body = final at taken moves old
        cases moves with
        | went | sent => exact listing_of_kept reachable listing taken rfl old
        | inserted registers => exact absurd ⟨_, registers⟩ registration
        | removed detaches => exact listing_of_removal run listing pc detaches taken old

/-- In every run the table lists the links that it should. -/
theorem listing_of_run (run : (serverMachine parse).Run .start trace state) : state.Listing := by
  induction run with
  | nil =>
      rintro ref ⟨message, member, -⟩
      cases member
  | @snoc trace before label after prior taken ih =>
      by_cases forward : label = .forward
      · subst forward
        exact listing_of_forward prior ih taken
      · have kept := (step_effect taken forward).2
        refine listing_of_kept ⟨_, trace, rfl, prior⟩ ih taken kept.links ?_
        rintro ref registered
        rwa [kept.applied] at registered

/-- In every run a link is closed by its own ends or by user code, and it stands in the table until
both of its loops have left. -/
theorem closes_own (run : (serverMachine parse).Run .start trace state) :
    ClosesOwn trace state where
  left := (teardown_of_run run).left
  told := (teardown_of_run run).told
  listed := listing_of_run run

/-- The trace of `tokenReused`: a link is detached and another takes its token. -/
def reusedTrace : List (ServerState × ServerLabel) :=
  (serverMachine fun _ => .incomplete).traceOf .start tokenReused

/-- A token is used again, and the loops of the second link stay. -/
theorem reusedTrace_closesOwn :
    ∃ state, (serverMachine fun _ => .incomplete).Run .start reusedTrace state ∧
      state.links ⟨7⟩ = some ⟨1⟩ ∧ ClosesOwn reusedTrace state := by
  obtain ⟨state, run, listed⟩ := @Machine.run_of_exec_any _ _ (serverMachine fun _ => .incomplete)
    .start tokenReused (fun state => decide (state.links ⟨7⟩ = some ⟨1⟩)) (by decide)
  exact ⟨state, run, of_decide_eq_true listed, closes_own run⟩

end H2l
