import H2l.Server.Teardown
import H2l.Server.WindUp
import Mathlib.Data.List.Infix

/-!
# When a server can still terminate

The forward loop comes to the exit message behind everything that was queued before it, and
it unwinds at a SETTINGS frame that it cannot answer. `Answerable` says of a state that each
such frame still finds its link registered and room in the link's queue, if the write loop
is given its turn first. A step never makes a state answerable again
(`answerable_of_step`), and an answerable state leads on (`catches_up`), so that
`TERMINATED` is reachable exactly from the answerable ones (`serverCompletes_iff`).
-/

namespace H2l

open Base

/-- The answers that the forward loop has yet to send to a link before it leaves. -/
def ServerState.due (state : ServerState) (ref : LinkRef) : List Transaction :=
  state.owed ref ++ state.ahead.flatMap (Message.answers ref)

/-- The message registers the link. -/
def Message.enters (ref : LinkRef) (message : Message) : Bool := decide (message.body = .newLink ref)

/-- Every message of the link that asks for an answer comes behind its registration. -/
def RegisteredAhead (ref : LinkRef) : Bool → List Message → Prop
  | _, [] => True
  | listed, message :: rest =>
      (message.answers ref ≠ [] → listed) ∧ RegisteredAhead ref (listed || message.enters ref) rest

/-- The transactions that the write loop will not receive any more: all of them once it has left,
and those behind a notice that will make it leave. -/
def LinkState.unreceived (link : LinkState) : Option Nat :=
  if link.writer.left then some link.outgoing.items.length
  else match link.outgoing.items.dropWhile fun tr => !tr.closes with
    | [] => none
    | _ :: rest => some rest.length

/-- The queue takes so many more transactions, if the write loop receives all that it ever will. -/
def LinkState.Fits (link : LinkState) (count : Nat) : Prop :=
  count = 0 ∨ link.writer.ended = false ∧ ∀ left ∈ link.unreceived, left + count ≤ 1024

/-- The answers that a link is due find it in the table, and room in its queue. -/
structure AnswersTo (state : ServerState) (ref : LinkRef) (link : LinkState) : Prop where
  listed : state.owed ref ≠ [] → state.lists ref
  registered : RegisteredAhead ref
    (state.lists ref || state.forward.current.any (Message.enters ref)) state.ahead
  room : link.Fits (state.due ref).length

/-- Every answer that the forward loop comes to before it leaves can be sent. -/
def Answerable (state : ServerState) : Prop :=
  ∀ ref link, state.link ref = some link → AnswersTo state ref link

variable {parse : HttpParser} {state after : ServerState} {label : ServerLabel}
  {trace : List (ServerState × ServerLabel)} {ref : LinkRef} {link next : LinkState}

/-- More time in the table does no harm. -/
theorem RegisteredAhead.mono {listed listed' : Bool} {messages : List Message}
    (registered : RegisteredAhead ref listed messages) (more : listed → listed') :
    RegisteredAhead ref listed' messages := by
  induction messages generalizing listed listed' with
  | nil => trivial
  | cons message rest ih =>
      obtain ⟨first, later⟩ := registered
      refine ⟨fun asks => more (first asks), ih later ?_⟩
      simp only [Bool.or_eq_true]
      exact Or.imp_left more

/-- What is registered ahead of more messages is so ahead of fewer. -/
theorem RegisteredAhead.front {listed : Bool} {front whole : List Message}
    (registered : RegisteredAhead ref listed whole) (before : front <+: whole) :
    RegisteredAhead ref listed front := by
  obtain ⟨rest, rfl⟩ := before
  induction front generalizing listed with
  | nil => trivial
  | cons message front ih => exact ⟨registered.1, ih registered.2⟩

/-- Messages that ask for nothing need no registration. -/
theorem registeredAhead_of_silent {messages : List Message}
    (silent : ∀ message ∈ messages, message.answers ref = []) (listed : Bool) :
    RegisteredAhead ref listed messages := by
  induction messages generalizing listed with
  | nil => trivial
  | cons message rest ih =>
      refine ⟨fun asks => absurd (silent message List.mem_cons_self) asks, ih ?_ _⟩
      exact fun later member => silent later (List.mem_cons_of_mem _ member)

/-- Where more transactions fit, fewer do. -/
theorem LinkState.Fits.fewer {count more : Nat} (fits : link.Fits more) (fewer : count ≤ more) :
    link.Fits count := by
  rcases fits with none | ⟨alive, room⟩
  · exact .inl (by omega)
  · refine .inr ⟨alive, fun left member => ?_⟩
    have enough := room left member
    omega

/-- The unreceived transactions after one more was queued. -/
theorem unreceived_queued {tr : Transaction} {outgoing : Channel Transaction 1024}
    (items : outgoing.items = link.outgoing.items ++ [tr]) :
    LinkState.unreceived { link with outgoing } =
      match link.unreceived with
      | some left => some (left + 1)
      | none => if tr.closes then some 0 else none := by
  unfold LinkState.unreceived
  cases left : link.writer.left with
  | true => simp [items]
  | false =>
      simp only [Bool.false_eq_true, if_false, items, List.dropWhile_append]
      -- Behind a notice one more stays unreceived; without one, none does, whatever it is.
      cases link.outgoing.items.dropWhile fun tr => !tr.closes with
      | nil => cases closes : tr.closes <;> simp [closes]
      | cons first rest => simp

/-- No more can stay unreceived than is queued. -/
theorem unreceived_le {left : Nat} (known : link.unreceived = some left) :
    left ≤ link.outgoing.items.length := by
  unfold LinkState.unreceived at known
  split at known
  · cases known
    exact Nat.le_refl _
  · split at known
    next => cases known
    next first rest split =>
      cases known
      have shorter := (List.dropWhile_suffix (l := link.outgoing.items)
        fun tr => !Transaction.closes tr).length_le
      rw [split, List.length_cons] at shorter
      omega

/-- Receiving a transaction changes nothing of what will not be received. -/
theorem unreceived_received {tr : Transaction} {outgoing : Channel Transaction 1024}
    (pc : link.writer = .receiving) (receives : link.outgoing.recv = some (tr, outgoing)) :
    LinkState.unreceived { link with outgoing, writer := .received tr } = link.unreceived := by
  have items := Channel.recv_items receives
  have waits : link.writer.left = false := by rw [pc]; rfl
  unfold LinkState.unreceived
  simp only [waits, Bool.false_eq_true, if_false, items]
  cases closes : tr.closes with
  | true => simp [received_left closes, closes]
  | false =>
      have stays : (WriterPc.received tr).left = false :=
        Bool.eq_false_iff.mpr fun left => by
          rw [closes_of_left left] at closes
          cases closes
      simp [stays, closes]

/-- A write loop that has just received has not ended. -/
theorem received_ended (tr : Transaction) : (WriterPc.received tr).ended = false := by
  unfold WriterPc.received
  split
  any_goals split
  all_goals rfl

/-- No step of a link makes room for what did not fit. -/
theorem LinkMove.fits {sent : Option Transaction} (move : LinkMove parse link next sent)
    {count : Nat} (fits : next.Fits count) : link.Fits count := by
  refine fits.imp id ?_
  rintro ⟨alive, room⟩
  cases move with
  | received pc receives =>
      rw [unreceived_received pc receives] at room
      exact ⟨by rw [pc]; rfl, room⟩
  | wrote pc =>
      refine ⟨by rw [pc]; rfl, fun left known => room left ?_⟩
      simpa [LinkState.unreceived, pc, WriterPc.left] using known
  | writeEnded pc =>
      refine ⟨by rw [pc]; rfl, fun left known => ?_⟩
      have within := unreceived_le known
      have enough := room link.outgoing.items.length (by simp [LinkState.unreceived, WriterPc.left])
      omega
  | @writerExits pc after word message place advances =>
      refine ⟨?_, fun left known => room left ?_⟩
      · cases pc with
        | finished => cases advances
        | _ => rw [place]; rfl
      · simpa [LinkState.unreceived, place, WriterPc.left] using known
  | queued ended sends =>
      refine ⟨alive, fun left known => ?_⟩
      have one := unreceived_queued (Channel.trySend_items sends)
      rw [known] at one
      have enough := room (left + 1) one
      omega
  | _ => exact ⟨alive, room⟩

/-- What still fits after a send, fitted with it. -/
theorem fits_of_sent {tr : Transaction} {count : Nat} (sends : link.send tr = .ok next)
    (fits : next.Fits count) : link.Fits (count + 1) := by
  obtain ⟨alive, outgoing, queued, rfl⟩ := send_ok sends
  have room := (Channel.trySend_isSome_iff link.outgoing tr).mp (by rw [queued]; rfl)
  refine .inr ⟨alive, fun left known => ?_⟩
  have within := unreceived_le known
  have one := unreceived_queued (Channel.trySend_items queued)
  rw [known] at one
  rcases fits with rfl | ⟨-, fits⟩
  · omega
  · have enough := fits (left + 1) one
    omega

/-- A send that is no notice leaves room for the rest. -/
theorem LinkState.Fits.sent {tr : Transaction} {count : Nat} (fits : link.Fits (count + 1))
    (sends : link.send tr = .ok next) (open' : tr.closes = false) : next.Fits count := by
  obtain ⟨alive, outgoing, queued, rfl⟩ := send_ok sends
  rcases fits with none | ⟨-, room⟩
  · cases none
  · refine .inr ⟨alive, fun left known => ?_⟩
    have one := unreceived_queued (Channel.trySend_items queued)
    rw [known] at one
    cases before : link.unreceived with
    | none => rw [before, open'] at one; cases one
    | some earlier =>
        rw [before] at one
        obtain rfl : left = earlier + 1 := Option.some.inj one
        have enough := room earlier before
        omega

/-- A write loop that is still to receive takes a step, which leaves the same room. -/
theorem write_progress (parse : HttpParser) (found : state.link ref = some link)
    (stays : link.writer.left = false) (filled : link.outgoing.items ≠ []) :
    ∃ next, (serverMachine parse).step state (.write ref true) = some (state.setLink ref next) ∧
      LinkMove parse link next none ∧ ∀ count, link.Fits count → next.Fits count := by
  cases pc : link.writer with
  | closing exit => rw [pc] at stays; cases stays
  | writing tr =>
      refine ⟨{ link with writer := .receiving }, ?_, .wrote pc, fun count fits => ?_⟩
      · simp [serverMachine, ServerState.step, found, ServerState.writeStep, pc]
      · refine fits.imp id fun room => ⟨rfl, fun left known => room.2 left ?_⟩
        simpa [LinkState.unreceived, pc, WriterPc.left] using known
  | receiving =>
      obtain ⟨tr, rest, items⟩ := List.exists_cons_of_ne_nil filled
      obtain ⟨outgoing, receives, -⟩ := Channel.recv_of_items items
      refine ⟨{ link with outgoing, writer := .received tr }, ?_, .received pc receives,
        fun count fits => ?_⟩
      · simp [serverMachine, ServerState.step, found, ServerState.writeStep, pc, receives]
      · refine fits.imp id fun room => ⟨received_ended tr, ?_⟩
        rw [unreceived_received pc receives]
        exact room.2

/-- Behind a message that tells of its closed reader a link delivers no frame. -/
def FrameFree (message later : Message) : Prop :=
  ∀ ref, message.sender = some ref → message.body.closes → later.sender = some ref →
    later.body.carried = none

/-- A loop that delivers a frame has not left. -/
theorem LinkMove.delivering {body : Transaction} (move : LinkMove parse link next (some body))
    (carries : body.carried ≠ none) : link.reader.left = false := by
  generalize posted : some body = sent at move
  cases move with
  | delivered pc => rw [pc]; rfl
  | @readerExits pc after word message | @writerExits pc after word message =>
      cases message with
      | none => cases posted
      | some flags => cases posted; exact absurd rfl carries
  | _ => cases posted

/-- The frames of a link come before the messages of its closed reader. -/
theorem frameFree_of_run (run : (serverMachine parse).Run .start trace state) :
    state.history.Pairwise FrameFree := by
  induction run with
  | nil => exact .nil
  | @snoc trace before label after prior taken ih =>
      obtain ⟨sent, posting, history⟩ := posting_of_move (step_move taken)
      rw [history]
      refine List.pairwise_append.mpr ⟨ih, by cases sent <;> simp, ?_⟩
      intro message member later added ref sender closes own
      cases posting with
      | silent => cases added
      | registered | announced =>
          obtain rfl := List.mem_singleton.mp added
          cases own
      | @posted mover link next body loops found move =>
          obtain rfl := List.mem_singleton.mp added
          obtain rfl : mover = ref := Option.some.inj own
          refine Classical.byContradiction fun carries => ?_
          obtain ⟨body', sender'⟩ := message
          cases body' with
          | linkChanged flags token =>
              obtain ⟨link', found', left⟩ :=
                (teardown_of_run prior).told _ member mover flags token sender rfl .reader closes
              obtain rfl : link = link' := Option.some.inj (found.symm.trans found')
              rw [LinkState.sideLeft, move.delivering carries] at left
              cases left
          | _ => cases closes

/-- What carries no frame of a link asks for no answer to it. -/
theorem answers_of_uncarried {message : Message}
    (silent : message.sender = some ref → message.body.carried = none) :
    message.answers ref = [] := by
  unfold Message.answers
  split
  next settings token body =>
    split
    next own =>
      have uncarried := silent own.1
      rw [body] at uncarried
      cases uncarried
    next => rfl
  next => rfl

/-- Behind the message of its closed reader a link asks for nothing. -/
theorem silent_behind (run : (serverMachine parse).Run .start trace state) {message : Message}
    (pc : state.forward = .handling message) (sender : message.sender = some ref)
    (closes : message.body.closes) : ∀ later ∈ state.channel.items, later.answers ref = [] := by
  intro later member
  have last := last_of_handling ⟨_, trace, rfl, run⟩ pc
  obtain ⟨earlier, consumed⟩ := List.getLast?_eq_some_iff.mp last
  have ordered := frameFree_of_run run
  rw [ServerState.history, consumed, List.append_assoc] at ordered
  have free := (List.pairwise_append.mp ordered).2.1
  rw [List.singleton_append, List.pairwise_cons] at free
  exact answers_of_uncarried fun own => free.1 later member ref sender closes own

/-- Where nothing is left to answer, nothing is missing. -/
theorem answersTo_of_done (paid : state.owed ref = []) (none : state.ahead = []) :
    AnswersTo state ref link := by
  refine ⟨fun owes => absurd paid owes, by rw [none]; trivial, .inl ?_⟩
  rw [ServerState.due, paid, none]
  rfl

/-- The exit message of the accept loop asks for no answers. -/
theorem answers_of_exits {message : Message} (exits : message.body.exits) :
    message.answers ref = [] := by
  have exit : message.body = .serverChanged .acceptLoopExited := by
    simpa [Transaction.exits] using exits
  exact answers_of_uncarried fun _ => by rw [exit]; rfl

/-- A forward loop that leaves answers nothing more. -/
theorem answersTo_of_leaves (leaves : state.forward.leaves) : AnswersTo state ref link := by
  refine answersTo_of_done ?_ (if_pos leaves)
  unfold ServerState.owed
  cases pc : state.forward with
  | handling message =>
      rw [pc] at leaves
      exact answers_of_exits leaves
  | acknowledging token => rw [pc] at leaves; cases leaves
  | _ => rfl

/-- The queued messages that are ahead stay so when others are queued behind them. -/
theorem ahead_front {sent : List Message} (forward : after.forward = state.forward)
    (items : after.channel.items = state.channel.items ++ sent) : state.ahead <+: after.ahead := by
  unfold ServerState.ahead
  rw [forward, items]
  split
  · exact List.prefix_rfl
  · rw [List.takeWhile_append]
    split
    next whole =>
      have all := (List.takeWhile_prefix (l := state.channel.items)
        fun message : Message => !message.body.exits).eq_of_length whole
      rw [all]
      exact List.prefix_append _ _
    next => exact List.prefix_rfl

/-- A step outside the forward loop makes nothing answerable that was not. -/
theorem answerable_of_kept {sent : List Message} (moves : LinksMove parse state after)
    (kept : ForwardKept state after)
    (items : after.channel.items = state.channel.items ++ sent) (answerable : Answerable after) :
    Answerable state := by
  intro ref link found
  obtain ⟨next, found', become⟩ := moves.link found
  obtain ⟨listed, registered, room⟩ := answerable ref next found'
  have owed : after.owed ref = state.owed ref := by
    simp only [ServerState.owed, kept.forward, kept.consumed]
  have lists : after.lists ref = state.lists ref := by
    simp only [ServerState.lists, kept.links, moves.tokenOf (link_lt found)]
  have front := ahead_front kept.forward items
  rw [owed, lists] at listed
  rw [lists, kept.forward] at registered
  refine ⟨listed, registered.front front, ?_⟩
  have fewer : (state.due ref).length ≤ (after.due ref).length := by
    have shorter := (front.flatMap (Message.answers ref)).length_le
    simp only [ServerState.due, owed, List.length_append]
    omega
  have fits := room.fewer fewer
  rcases become with rfl | ⟨sent, move⟩
  · exact fits
  · exact move.fits fits

/-- Taking a message into hand changes nothing. -/
theorem answerable_received {message : Message} {channel : Channel Message 4096}
    (pc : state.forward = .receiving) (items : state.channel.items = message :: channel.items)
    (same : after = { state with
      channel, forward := .handling message, consumed := state.consumed ++ [message] }) :
    Answerable after ↔ Answerable state := by
  have forward : after.forward = .handling message := by rw [same]
  have queue : after.channel.items = channel.items := by rw [same]
  have lists : ∀ ref, after.lists ref = state.lists ref := fun ref => by rw [same]; rfl
  have links : ∀ ref, after.link ref = state.link ref := fun ref => by rw [same]; rfl
  have paid : ∀ ref, state.owed ref = [] := fun ref => by rw [ServerState.owed, pc]
  have owed : ∀ ref, after.owed ref = message.answers ref := fun ref => by
    rw [ServerState.owed, forward]
  have waits : state.forward.leaves = false := by rw [pc]; rfl
  refine forall_congr' fun ref => forall_congr' fun link => ?_
  rw [links]
  refine forall_congr' fun found => ?_
  cases exits : message.body.exits with
  | true =>
      refine iff_of_true (answersTo_of_leaves (by rw [forward]; exact exits))
        (answersTo_of_done (paid ref) ?_)
      rw [ServerState.ahead, waits, items]
      simp [exits]
  | false =>
      have stays : after.forward.leaves = false := by rw [forward]; exact exits
      have ahead : state.ahead = message :: after.ahead := by
        simp only [ServerState.ahead, waits, stays, items, queue, Bool.false_eq_true, if_false]
        rw [List.takeWhile_cons, if_pos (by rw [exits]; rfl)]
      have due : state.due ref = after.due ref := by
        rw [ServerState.due, ServerState.due, paid, owed, ahead, List.nil_append,
          List.flatMap_cons]
      constructor
      · rintro ⟨listed, registered, room⟩
        rw [owed, lists] at listed
        rw [lists, forward] at registered
        refine ⟨fun owes => absurd (paid ref) owes, ?_, due ▸ room⟩
        rw [ahead, pc]
        refine ⟨fun asks => ?_, ?_⟩
        · rw [listed asks]
          rfl
        · simpa [ForwardPc.current] using registered
      · rintro ⟨-, registered, room⟩
        rw [ahead, pc, current_receiving, List.any_nil, Bool.or_false] at registered
        refine ⟨?_, ?_, due ▸ room⟩
        · rw [owed, lists]
          exact registered.1
        · rw [lists, forward]
          simpa [ForwardPc.current] using registered.2

/-- The forward loop has sent an answer to the link that it is due: what the states on either side
have in common, and what is paid. -/
structure AnswerSent (state after : ServerState) (target : LinkRef) (link next : LinkState)
    (tr : Transaction) (rest : List Transaction) : Prop where
  there : state.link target = some link
  found : ∀ ref, after.link ref = if ref = target then some next else state.link ref
  sends : link.send tr = .ok next
  notClosing : tr.closes = false
  listed : state.lists target
  lists : ∀ ref link, state.link ref = some link → after.lists ref = state.lists ref
  ahead : after.ahead = state.ahead
  current : ∀ ref, state.forward.current.any (Message.enters ref) = false
  free : after.forward.current = []
  owed : ∀ ref, state.owed ref = if ref = target then tr :: rest else []
  left : ∀ ref, after.owed ref = if ref = target then rest else []

namespace AnswerSent

variable {target : LinkRef} {tr : Transaction} {rest : List Transaction}

/-- Sending an answer registers nothing. -/
theorem registered (sent : AnswerSent state after target link next tr rest) {other : LinkState}
    (found : state.link ref = some other) :
    RegisteredAhead ref (after.lists ref || after.forward.current.any (Message.enters ref))
        after.ahead ↔
      RegisteredAhead ref (state.lists ref || state.forward.current.any (Message.enters ref))
        state.ahead := by
  rw [sent.lists ref other found, sent.free, List.any_nil, sent.current, sent.ahead]

/-- The link that is sent the answer is due one less, and has one more in its queue. -/
theorem own (sent : AnswerSent state after target link next tr rest) :
    AnswersTo after target next ↔ AnswersTo state target link := by
  have due : state.due target = tr :: after.due target := by
    rw [ServerState.due, ServerState.due, sent.owed, sent.left, if_pos rfl, if_pos rfl, sent.ahead]
    rfl
  constructor
  · rintro ⟨-, registered, room⟩
    refine ⟨fun _ => sent.listed, (sent.registered sent.there).mp registered, ?_⟩
    rw [due, List.length_cons]
    exact fits_of_sent sent.sends room
  · rintro ⟨-, registered, room⟩
    rw [due, List.length_cons] at room
    refine ⟨fun _ => ?_, (sent.registered sent.there).mpr registered,
      room.sent sent.sends sent.notClosing⟩
    rw [sent.lists target link sent.there]
    exact sent.listed

/-- For the other links nothing changes. -/
theorem other (sent : AnswerSent state after target link next tr rest) (apart : ref ≠ target)
    {other : LinkState} (found : state.link ref = some other) :
    AnswersTo after ref other ↔ AnswersTo state ref other := by
  have paid : state.owed ref = [] := by rw [sent.owed, if_neg apart]
  have paid' : after.owed ref = [] := by rw [sent.left, if_neg apart]
  have due : after.due ref = state.due ref := by
    rw [ServerState.due, ServerState.due, paid, paid', sent.ahead]
  constructor
  · rintro ⟨-, registered, room⟩
    exact ⟨fun owes => absurd paid owes, (sent.registered found).mp registered, due ▸ room⟩
  · rintro ⟨-, registered, room⟩
    exact ⟨fun owes => absurd paid' owes, (sent.registered found).mpr registered, due ▸ room⟩

/-- An answer that arrives is due no more; what is left to answer can be answered as before. -/
theorem answerable (sent : AnswerSent state after target link next tr rest) :
    Answerable after ↔ Answerable state := by
  constructor
  · intro answerable ref link' found
    by_cases own : ref = target
    · subst own
      obtain rfl : link = link' := Option.some.inj (sent.there.symm.trans found)
      exact sent.own.mp (answerable ref next (by rw [sent.found, if_pos rfl]))
    · have found' : after.link ref = some link' := by rw [sent.found, if_neg own, found]
      exact (sent.other own found).mp (answerable ref link' found')
  · intro answerable ref link' found
    rw [sent.found] at found
    by_cases own : ref = target
    · subst own
      obtain rfl : next = link' := by simpa using found
      exact sent.own.mpr (answerable ref link sent.there)
    · rw [if_neg own] at found
      exact (sent.other own found).mpr (answerable ref link' found)

end AnswerSent

/-- An unwrapped send that arrives is an answer to the link whose message is in hand. -/
theorem answerSent_of_unwrap {message : Message} {token : Token} {tr : Transaction}
    {rest : List Transaction} {target : LinkRef} {place : ForwardPc}
    (reachable : (serverMachine parse).Reachable state)
    (last : state.consumed.getLast? = some message) (looked : message.body.lookup = some token)
    (listed : state.links token = some target) (there : state.link target = some link)
    (sends : link.send tr = .ok next) (notClosing : tr.closes = false)
    (waits : state.forward.leaves = false) (stays : place.leaves = false)
    (current : ∀ ref, state.forward.current.any (Message.enters ref) = false)
    (free : place.current = [])
    (same : after = { state.setLink target next with forward := place })
    (owed : ∀ ref, state.owed ref = if message.sender = some ref then tr :: rest else [])
    (left : ∀ ref, after.owed ref = if message.sender = some ref then rest else []) :
    AnswerSent state after target link next tr rest := by
  have sender := sender_of_listed reachable last looked listed
  have own : ∀ ref, message.sender = some ref ↔ ref = target := fun ref => by
    rw [sender, Option.some.injEq, eq_comm]
  have named : state.tokenOf target = token := by
    obtain ⟨start, trace, rfl, run⟩ := reachable
    exact (tokenInv_of_run run).listed token target listed
  have created : after.created = state.created.set target.index next := by rw [same]; rfl
  have moves : LinksMove parse state after := .moved there (move_of_send sends) created
  have forward : after.forward = place := by rw [same]
  have channel : after.channel = state.channel := by rw [same]; rfl
  simp only [own] at owed left
  refine ⟨there, fun ref => ?_, sends, notClosing, ?_, fun ref link found => ?_, ?_, current,
    forward ▸ free, owed, left⟩
  · rw [ServerState.link, created, link_set (link_lt there), ServerState.link]
  · rw [ServerState.lists, named, listed]
    exact beq_self_eq_true _
  · rw [ServerState.lists, moves.tokenOf (link_lt found), same]
    rfl
  · rw [ServerState.ahead, ServerState.ahead, forward, channel, waits, stays]

/-- An unwrapped send that does not unwind the forward loop has arrived. -/
theorem arrives_of_unwrap {token : Token} {tr : Transaction} {place : ForwardPc}
    (calm : (state.sendUnwrap token tr place).forward ≠ .panicked) :
    ∃ target link next, state.links token = some target ∧ state.link target = some link ∧
      link.send tr = .ok next ∧
      state.sendUnwrap token tr place = { state.setLink target next with forward := place } := by
  cases sends : state.sendTo token tr with
  | error error =>
      have panics : (state.sendUnwrap token tr place).forward = .panicked := by
        simp [ServerState.sendUnwrap, sends]
      exact absurd panics calm
  | ok sent =>
      obtain ⟨target, link, next, listed, there, queues, rfl⟩ := sendTo_ok sends
      exact ⟨target, link, next, listed, there, queues, by simp [ServerState.sendUnwrap, sends]⟩

/-- An unwrapped send leaves the state as answerable as it was, or unwinds. -/
theorem answerable_unwrapped (reachable : (serverMachine parse).Reachable state)
    (unwraps : state.forward.unwraps ≠ none)
    (taken : (serverMachine parse).step state .forward = some after)
    (calm : after.forward ≠ .panicked) : Answerable after ↔ Answerable state := by
  cases forward_move taken with
  | received pc => exact absurd (by rw [pc]; rfl) unwraps
  | called pc => exact absurd (by rw [pc]; rfl) unwraps
  | @handled message pc =>
      have asks := unwraps
      rw [pc] at asks
      obtain ⟨settings, token, body, fresh⟩ := settings_of_unwraps asks
      have goes : state.handle message.body = state.sendUnwrap (token.getD ⟨0⟩)
          (.frame (.settings settings) token) (.acknowledging token) := by
        simp [body, ServerState.handle, ServerState.handleFrame, fresh]
      have last := last_of_handling reachable pc
      rw [goes] at calm ⊢
      obtain ⟨target, link, next, listed, there, sends, same⟩ := arrives_of_unwrap calm
      have waits : state.forward.leaves = false := by
        rw [pc, ForwardPc.leaves, Transaction.exits, body]
        simp
      have owed : ∀ ref, state.owed ref = if message.sender = some ref then
          [.frame (.settings settings) token, .frame (.settings Settings.ack) token]
          else [] := fun ref => by
        simp [ServerState.owed, pc, Message.answers, body, fresh]
      refine (answerSent_of_unwrap reachable last (by rw [body]; rfl) listed there sends rfl waits
        rfl (fun ref => ?_) rfl same owed fun ref => ?_).answerable
      · rw [pc]
        simp [ForwardPc.current, Message.enters, body]
      · rw [same]
        simp only [ServerState.owed, ServerState.setLink, last, Option.bind_some]
  | @acknowledged token pc =>
      obtain ⟨message, last, looked⟩ := last_of_acknowledging reachable pc
      obtain ⟨target, link, next, listed, there, sends, same⟩ := arrives_of_unwrap calm
      have owed : ∀ ref, state.owed ref = if message.sender = some ref then
          [.frame (.settings Settings.ack) token] else [] := fun ref => by
        simp only [ServerState.owed, pc, last, Option.bind_some]
      refine (answerSent_of_unwrap reachable last looked listed there sends rfl (by rw [pc]; rfl)
        rfl (fun ref => by rw [pc]; rfl) rfl same owed fun ref => ?_).answerable
      rw [same, ServerState.owed, ite_self]

/-- The place of the forward loop after a message that it answers nothing to. -/
theorem stays_of_calm {message : Message} (pc : state.forward = .handling message)
    (calm : state.forward.unwraps = none) (stays : message.body.exits = false) :
    (state.handle message.body).forward.leaves = false := by
  have handled := (handled_forward pc).1
  generalize (state.handle message.body).forward = place at handled
  cases handled with
  | done | calls => rfl
  | leaves _ exit => rw [Transaction.exits, exit] at stays; simp at stays
  | unwraps unwrapped => cases calm.symm.trans unwrapped

/-- What a message that is answered by nothing leaves due. -/
theorem due_of_calm {message : Message} (pc : state.forward = .handling message)
    (calm : state.forward.unwraps = none) (stays : message.body.exits = false) :
    state.owed ref = [] ∧ (state.handle message.body).owed ref = [] ∧
      (state.handle message.body).ahead = state.ahead ∧
      (state.handle message.body).due ref = state.due ref := by
  obtain ⟨paid, free, -⟩ := owed_of_handled ref pc calm
  have waits : state.forward.leaves = false := by rw [pc]; exact stays
  have ahead : (state.handle message.body).ahead = state.ahead := by
    rw [ServerState.ahead, ServerState.ahead, waits, stays_of_calm pc calm stays,
      (handle_move state message.body).frame.channel]
  exact ⟨paid, free, ahead, by rw [ServerState.due, ServerState.due, paid, free, ahead]⟩

/-- Handling a message makes nothing answerable that was not. -/
theorem answerable_of_calm {message : Message} (pc : state.forward = .handling message)
    (calm : state.forward.unwraps = none)
    (answerable : Answerable (state.handle message.body)) : Answerable state := by
  cases stays : message.body.exits with
  | true => exact fun ref link _ => answersTo_of_leaves (by rw [pc]; exact stays)
  | false =>
      intro ref link found
      let moves : LinksMove (fun _ => .incomplete) state (state.handle message.body) :=
        (handle_move state message.body).links _
      obtain ⟨next, found', become⟩ := moves.link found
      obtain ⟨-, registered, room⟩ := answerable ref next found'
      obtain ⟨paid, -, ahead, due⟩ := @due_of_calm state ref message pc calm stays
      have idle : (state.handle message.body).forward.current = [] :=
        (handle_move state message.body).free
      rw [idle, ahead, List.any_nil, Bool.or_false] at registered
      rw [due] at room
      refine ⟨fun owes => absurd paid owes, registered.mono fun listed => ?_, ?_⟩
      · rw [ServerState.lists, beq_iff_eq, moves.tokenOf (link_lt found)] at listed
        have step : ServerMove (fun _ => .incomplete) state .forward (state.handle message.body) :=
          .forwarded (.handled pc)
        rcases links_of_move step listed with before | ⟨other, pc', registers, -⟩
        · simp [ServerState.lists, before]
        · obtain rfl : message = other := by simpa using pc.symm.trans pc'
          simp [pc, ForwardPc.current, Message.enters, registers]
      · rcases become with rfl | ⟨sent, move⟩
        · exact room
        · exact move.fits room

/-- What handling a message leaves of a link that it does not close. -/
structure Spared (state after : ServerState) (message : Message) (ref : LinkRef) : Prop where
  link : after.link ref = state.link ref
  lists : state.lists ref || message.enters ref → after.lists ref

/-- Handling that changes neither the links nor the table spares every link it does not enter. -/
theorem spared_of_kept {message : Message} (created : after.created = state.created)
    (links : after.links = state.links) (other : message.enters ref = false) :
    Spared state after message ref where
  link := by rw [ServerState.link, ServerState.link, created]
  lists listed := by
    rw [other, Bool.or_false] at listed
    simpa only [ServerState.lists, ServerState.tokenOf, ServerState.link, created, links] using
      listed

/-- The flags of another link, and those that do not close, spare a link. -/
theorem spared_of_changed {flags : LinkFlags} {own : LinkRef}
    (reachable : (serverMachine parse).Reachable state)
    (pc : state.forward = .handling ⟨.linkChanged flags (state.tokenOf own), some own⟩)
    (other : own = ref → (Transaction.linkChanged flags (state.tokenOf own)).closes = false) :
    Spared state (state.handle (.linkChanged flags (state.tokenOf own)))
      ⟨.linkChanged flags (state.tokenOf own), some own⟩ ref := by
  have mine := detaches_own reachable pc
  simp only [ServerState.handle, ServerState.handleLinkChanged]
  cases arm : linkChangedArm flags with
  | ignore => exact spared_of_kept rfl rfl (by simp [Message.enters])
  | notify =>
      have apart : own ≠ ref := fun same => by
        rw [closes_of_notify arm] at other
        cases other same
      dsimp only
      cases sends : state.sendTo (state.tokenOf own)
          (.linkChanged flags (state.tokenOf own)) with
      | error error => exact spared_of_kept rfl rfl (by simp [Message.enters])
      | ok sent =>
          obtain ⟨target, link, next, listed, there, queues, rfl⟩ := sendTo_ok sends
          obtain rfl : target = own := by
            rw [listed] at mine
            simpa using mine
          have found : ServerState.link { state.setLink target next with forward := .receiving }
              ref = state.link ref :=
            (link_set (link_lt there)).trans (if_neg (Ne.symm apart))
          refine ⟨found, fun lists => ?_⟩
          have before : state.lists ref := by simpa [Message.enters] using lists
          rw [ServerState.lists, ServerState.tokenOf, found]
          exact before
  | detach =>
      obtain rfl := (detach_iff flags).mp arm
      have apart : own ≠ ref := fun same => by
        have open' := other same
        revert open'
        simp [Transaction.closes]
        decide
      refine ⟨rfl, fun lists => ?_⟩
      have before : state.lists ref := by simpa [Message.enters] using lists
      rw [ServerState.lists, beq_iff_eq] at before
      have free : state.tokenOf ref ≠ state.tokenOf own := by
        intro same
        rw [← same, before] at mine
        exact apart (by simpa using mine.symm : ref = own).symm
      exact beq_iff_eq.mpr ((if_neg free).trans before)

/-- A registration enters its link, and spares the others. -/
theorem spared_of_registration {own : LinkRef} {sender : Option LinkRef}
    (reachable : (serverMachine parse).Reachable state)
    (pc : state.forward = .handling ⟨.newLink own, sender⟩) :
    Spared state (state.handle (.newLink own)) ⟨.newLink own, sender⟩ ref := by
  obtain ⟨start, trace, rfl, run⟩ := reachable
  have inv := tokenInv_of_run run
  obtain ⟨earlier, applied⟩ := inv.applied
  have free := registers_free inv applied pc rfl
  refine ⟨rfl, fun lists => ?_⟩
  by_cases same : own = ref
  · subst same
    exact beq_iff_eq.mpr (if_pos rfl)
  · have before : state.links (state.tokenOf ref) = some ref := by
      simpa [Message.enters, same, ServerState.lists] using lists
    have apart : state.tokenOf ref ≠ state.tokenOf own := by
      intro token
      rw [token, free] at before
      cases before
    exact beq_iff_eq.mpr ((if_neg apart).trans before)

/-- A message spares every link but the one that it tells the end of. -/
theorem spared_of_calm (reachable : (serverMachine parse).Reachable state) {message : Message}
    (pc : state.forward = .handling message) (calm : state.forward.unwraps = none)
    (stays : message.body.exits = false)
    (other : message.sender = some ref → message.body.closes = false) :
    Spared state (state.handle message.body) message ref := by
  have member : message ∈ state.history :=
    List.mem_append_left _ (List.mem_of_getLast? (last_of_handling reachable pc))
  cases proper_of_reachable reachable message member with
  | @frame carried own known =>
      cases carried with
      | settings settings =>
          have ack : settings.isAck = true := by
            rw [pc] at calm
            by_cases ack : settings.isAck
            · exact ack
            · exact absurd calm (by simp [ForwardPc.unwraps, ack])
          refine spared_of_kept ?_ ?_ (by simp [Message.enters]) <;>
            simp [ServerState.handle, ServerState.handleFrame, ack]
      | _ => exact spared_of_kept rfl rfl (by simp [Message.enters])
  | changed known => exact spared_of_changed reachable pc fun own => other (congrArg some own)
  | registers known => exact spared_of_registration reachable pc
  | exits => cases stays

/-- Handling a message leaves a state answerable, whatever it makes of the table and of a link. -/
theorem answerable_calm (run : (serverMachine parse).Run .start trace state) {message : Message}
    (pc : state.forward = .handling message) (calm : state.forward.unwraps = none)
    (answerable : Answerable state) : Answerable (state.handle message.body) := by
  have reachable : (serverMachine parse).Reachable state := ⟨_, trace, rfl, run⟩
  intro ref next found
  cases stays : message.body.exits with
  | true =>
      have exit : message.body = .serverChanged .acceptLoopExited := by
        simpa [Transaction.exits] using stays
      rw [exit]
      exact answersTo_of_leaves rfl
  | false =>
      obtain ⟨paid, free, ahead, due⟩ := @due_of_calm state ref message pc calm stays
      have idle : (state.handle message.body).forward.current = [] :=
        (handle_move state message.body).free
      by_cases own : message.sender = some ref ∧ message.body.closes
      · have silent : ∀ later ∈ state.ahead, later.answers ref = [] := fun later member => by
          refine silent_behind run pc own.1 own.2 later ?_
          unfold ServerState.ahead at member
          split at member
          · cases member
          · exact (List.takeWhile_sublist _).mem member
        refine ⟨fun owes => absurd free owes, ?_, .inl ?_⟩
        · rw [ahead]
          exact registeredAhead_of_silent silent _
        · rw [due, ServerState.due, paid, List.flatMap_eq_nil_iff.mpr silent]
          rfl
      · have spared := @spared_of_calm _ _ ref reachable message pc calm stays fun sender =>
          Bool.eq_false_iff.mpr fun closes => own ⟨sender, closes⟩
        rw [spared.link] at found
        obtain ⟨-, registered, room⟩ := answerable ref next found
        refine ⟨fun owes => absurd free owes, ?_, due ▸ room⟩
        rw [idle, ahead, List.any_nil, Bool.or_false]
        refine registered.mono fun listed => spared.lists ?_
        simpa [pc, ForwardPc.current] using listed

/-- Calling the closure answers nothing, and takes nothing from the queue. -/
theorem answerable_called {tr : Transaction} {last : Bool} (pc : state.forward = .calling tr last)
    (same : after = { state with
      callbacks := state.callbacks ++ [tr], forward := if last then .exited else .receiving }) :
    Answerable after ↔ Answerable state := by
  cases last with
  | true =>
      refine iff_of_true ?_ ?_ <;> refine fun ref link _ => answersTo_of_leaves ?_
      · rw [same]
        rfl
      · rw [pc]
        rfl
  | false =>
      have forward : after.forward = .receiving := by rw [same]; rfl
      have lists : ∀ ref, after.lists ref = state.lists ref := fun ref => by rw [same]; rfl
      have links : ∀ ref, after.link ref = state.link ref := fun ref => by rw [same]; rfl
      have ahead : after.ahead = state.ahead := by
        have channel : after.channel = state.channel := by rw [same]
        rw [ServerState.ahead, ServerState.ahead, forward, channel, pc]
        rfl
      have owed : ∀ ref, after.owed ref = state.owed ref := fun ref => by
        rw [ServerState.owed, ServerState.owed, forward, pc]
      have due : ∀ ref, after.due ref = state.due ref := fun ref => by
        rw [ServerState.due, ServerState.due, owed, ahead]
      have idle : after.forward.current = state.forward.current := by rw [forward, pc]; rfl
      refine forall_congr' fun ref => forall_congr' fun link => ?_
      rw [links]
      refine imp_congr_right fun _ => ⟨?_, ?_⟩
      · rintro ⟨listed, registered, room⟩
        rw [owed, lists] at listed
        rw [lists, idle, ahead] at registered
        exact ⟨listed, registered, due ref ▸ room⟩
      · rintro ⟨listed, registered, room⟩
        rw [← owed, ← lists] at listed
        rw [← lists, ← idle, ← ahead] at registered
        exact ⟨listed, registered, due ref ▸ room⟩

/-- A step of the forward loop that does not unwind it leaves a state as answerable as it was. -/
theorem answerable_turn (run : (serverMachine parse).Run .start trace state)
    (taken : (serverMachine parse).step state .forward = some after)
    (calm : after.forward ≠ .panicked) : Answerable after ↔ Answerable state := by
  have reachable : (serverMachine parse).Reachable state := ⟨_, trace, rfl, run⟩
  by_cases unwraps : state.forward.unwraps = none
  · cases forward_move taken with
    | received pc receives => exact answerable_received pc (Channel.recv_items receives) rfl
    | handled pc => exact ⟨answerable_of_calm pc unwraps, answerable_calm run pc unwraps⟩
    | acknowledged pc => rw [pc] at unwraps; cases unwraps
    | called pc => exact answerable_called pc rfl
  · exact answerable_unwrapped reachable unwraps taken calm

/-- A step that does not unwind the forward loop makes nothing answerable that was not. -/
theorem answerable_of_step {label : ServerLabel}
    (run : (serverMachine parse).Run .start trace state)
    (taken : (serverMachine parse).step state label = some after)
    (calm : after.forward ≠ .panicked) (answerable : Answerable after) : Answerable state := by
  by_cases forward : label = .forward
  · subst forward
    exact (answerable_turn run taken calm).mp answerable
  · have move := step_move taken
    obtain ⟨sent, -, history⟩ := posting_of_move move
    have kept := (step_effect taken forward).2
    rw [ServerState.history, ServerState.history, kept.consumed, List.append_assoc] at history
    exact answerable_of_kept (linksMove_of_move move) kept (List.append_cancel_left history)
      answerable

/-- A forward loop that has panicked stays so. -/
theorem panicked_stays {label : ServerLabel} (panicked : state.forward = .panicked)
    (taken : (serverMachine parse).step state label = some after) : after.forward = .panicked := by
  by_cases forward : label = .forward
  · subst forward
    simp [serverMachine, ServerState.step, ServerState.forwardStep, panicked] at taken
  · rw [(step_effect taken forward).2.forward, panicked]

/-- What was not answerable stays so, unless the forward loop unwinds. -/
theorem answerable_of_run {further : List (ServerState × ServerLabel)} {final : ServerState}
    (run : (serverMachine parse).Run .start trace state)
    (onward : (serverMachine parse).Run state further final) (calm : final.forward ≠ .panicked)
    (answerable : Answerable final) : Answerable state := by
  induction onward with
  | nil => exact answerable
  | snoc prior taken ih =>
      have earlier := answerable_of_step (run.append prior) taken calm answerable
      exact ih (fun panicked => calm (panicked_stays panicked taken)) earlier

/-- A thread that has called `TERMINATED` has found every answer arrive. -/
theorem answerable_of_terminates (run : (serverMachine parse).Run .start trace state)
    (terminates : Terminates parse state) :
    Machine.Guarded SendArrives trace ∧ Answerable state := by
  obtain ⟨final, ⟨further, onward⟩, returned, -⟩ := terminates
  have whole := run.append onward
  have exited : final.forward = .exited := (called_of_run whole).returned returned
  have calm : final.forward ≠ .panicked := by simp [exited]
  have handles : ForwardHandles final := by
    rcases good_or_panicked whole with good | panicked
    · exact ⟨good.calm, fun left => good.leaving (.inl left)⟩
    · exact absurd panicked calm
  refine ⟨fun step member => ?_, answerable_of_run run onward calm fun ref link _ => ?_⟩
  · exact (forwardHandles_iff whole).mp handles step (List.mem_append_left _ member)
  · exact answersTo_of_leaves (by rw [exited]; rfl)

/-- An unwrapped send goes under the token of a link that is owed an answer. -/
theorem owing_of_unwraps (reachable : (serverMachine parse).Reachable state) {token : Token}
    (unwraps : state.forward.unwraps = some token) :
    ∃ ref : LinkRef, ref.index < state.created.length ∧ token = state.tokenOf ref ∧
      state.owed ref ≠ [] := by
  have found : ∃ message, state.consumed.getLast? = some message ∧
      message.body.lookup = some token ∧
      ∀ ref, message.sender = some ref → state.owed ref ≠ [] := by
    cases pc : state.forward with
    | handling message =>
        have asks : (ForwardPc.handling message).unwraps ≠ none := by rw [← pc, unwraps]; simp
        obtain ⟨settings, own, body, fresh⟩ := settings_of_unwraps asks
        rw [pc] at unwraps
        obtain ⟨_, sender⟩ := message
        subst body
        simp only [ForwardPc.unwraps, fresh, Bool.false_eq_true, if_false,
          Option.some.injEq] at unwraps
        refine ⟨_, last_of_handling reachable pc, congrArg some unwraps, ?_⟩
        rintro ref ⟨⟩
        simp [ServerState.owed, pc, Message.answers, fresh]
    | acknowledging own =>
        obtain ⟨message, last, looked⟩ := last_of_acknowledging reachable pc
        rw [pc] at unwraps
        refine ⟨message, last, looked.trans unwraps, fun ref sender => ?_⟩
        simp [ServerState.owed, pc, last, sender]
    | _ => rw [pc] at unwraps; cases unwraps
  obtain ⟨message, last, looked, owes⟩ := found
  have member : message ∈ state.history := List.mem_append_left _ (List.mem_of_getLast? last)
  cases proper_of_reachable reachable message member with
  | frame known | changed known =>
      exact ⟨_, known, (Option.some.inj looked).symm, owes _ rfl⟩
  | registers | exits => cases looked

/-- An answer that is due arrives, or waits for a write loop that takes its next step. -/
theorem arrives_or_writes (reachable : (serverMachine parse).Reachable state)
    (answerable : Answerable state) {token : Token}
    (unwraps : state.forward.unwraps = some token) :
    state.canSend token ∨ ∃ ref link next, state.link ref = some link ∧
      (serverMachine parse).step state (.write ref true) = some (state.setLink ref next) ∧
      LinkMove parse link next none ∧ ∀ count, link.Fits count → next.Fits count := by
  obtain ⟨ref, known, rfl, owes⟩ := owing_of_unwraps reachable unwraps
  obtain ⟨link, found⟩ := link_of_lt known
  obtain ⟨listed, -, room⟩ := answerable ref link found
  have there : state.links (state.tokenOf ref) = some ref := by
    simpa [ServerState.lists] using listed owes
  have due : 0 < (state.due ref).length := by
    have positive := List.length_pos_of_ne_nil owes
    simp only [ServerState.due, List.length_append]
    omega
  rcases room with none | ⟨alive, room⟩
  · omega
  · by_cases full : link.outgoing.items.length < 1024
    · left
      simp [ServerState.canSend, ServerState.findLink, there, found, alive, full]
    · right
      have stays : link.writer.left = false := by
        cases left : link.writer.left with
        | false => rfl
        | true =>
            have within := room _ (if_pos left)
            omega
      have filled : link.outgoing.items ≠ [] := fun none => full (by rw [none]; decide)
      obtain ⟨next, taken, move, fits⟩ := write_progress parse found stays filled
      exact ⟨ref, link, next, found, taken, move, fits⟩

/-- A write loop that goes on receiving keeps a state answerable. -/
theorem answerable_of_write {next : LinkState} (found : state.link ref = some link)
    (move : LinkMove parse link next none) (fits : ∀ count, link.Fits count → next.Fits count)
    (answerable : Answerable state) : Answerable (state.setLink ref next) := by
  have moves : LinksMove parse state (state.setLink ref next) := .moved found move rfl
  intro other changed there
  have place : (if other = ref then some next else state.link other) = some changed :=
    (link_set (link_lt found)).symm.trans there
  have known : ∃ before, state.link other = some before ∧
      ∀ count, before.Fits count → changed.Fits count := by
    by_cases own : other = ref
    · rw [if_pos own, Option.some.injEq] at place
      exact ⟨link, own ▸ found, place ▸ fits⟩
    · rw [if_neg own] at place
      exact ⟨changed, place, fun _ => id⟩
  obtain ⟨before, there, fits⟩ := known
  obtain ⟨listed, registered, room⟩ := answerable other before there
  have lists : (state.setLink ref next).lists other = state.lists other := by
    rw [ServerState.lists, moves.tokenOf (link_lt there)]
    rfl
  refine ⟨?_, ?_, fits _ room⟩
  · rw [lists]
    exact listed
  · rw [lists]
    exact registered

/-- The forward loop waits for a message, or has ended. -/
def ServerState.CaughtUp (state : ServerState) : Prop :=
  state.forward = .receiving ∧ state.channel.items = [] ∨ state.forward = .exited

/-- A step towards the end of the queue. -/
def ServerLabel.CatchesUp : ServerLabel → Prop
  | forward | write _ true => True
  | _ => False

/-- A forward loop that has neither caught up nor unwound takes its next step. -/
theorem forward_steps (parse : HttpParser) (calm : state.forward ≠ .panicked)
    (behind : ¬ state.CaughtUp) :
    ∃ next, (serverMachine parse).step state .forward = some next := by
  simp only [serverMachine, ServerState.step, ServerState.forwardStep]
  cases pc : state.forward with
  | receiving =>
      cases items : state.channel.items with
      | nil => exact absurd (.inl ⟨pc, items⟩) behind
      | cons message rest =>
          obtain ⟨channel, receives, -⟩ := Channel.recv_of_items items
          exact ⟨_, by rw [receives]; rfl⟩
  | exited => exact absurd (.inr pc) behind
  | panicked => exact absurd pc calm
  | _ => exact ⟨_, rfl⟩

/-- Where every answer can be sent, the forward loop or a write loop takes a step that keeps it so,
until the queue is empty. -/
theorem progress_of_answerable (run : (serverMachine parse).Run .start trace state)
    (answerable : Answerable state) (calm : state.forward ≠ .panicked)
    (behind : ¬ state.CaughtUp) :
    ∃ label next, ServerLabel.CatchesUp label ∧
      (serverMachine parse).step state label = some next ∧
      Answerable next ∧ next.forward ≠ .panicked := by
  by_cases arrives : ∀ token ∈ state.forward.unwraps, state.canSend token
  · obtain ⟨next, taken⟩ := forward_steps parse calm behind
    have good := (good_or_panicked run).resolve_right calm
    have goes := (forwardGood_move good arrives (forward_move taken)).calm
    exact ⟨.forward, next, trivial, taken, (answerable_turn run taken goes).mpr answerable, goes⟩
  · simp only [Option.mem_def, Classical.not_forall] at arrives
    obtain ⟨token, unwraps, refused⟩ := arrives
    obtain ⟨ref, link, next, found, writes, move, fits⟩ :=
      (arrives_or_writes ⟨_, trace, rfl, run⟩ answerable unwraps).resolve_left refused
    exact ⟨.write ref true, _, trivial, writes, answerable_of_write found move fits answerable,
      calm⟩

/-- Where every answer can be sent, the forward loop catches up with its queue. -/
theorem catches_up (run : (serverMachine parse).Run .start trace state)
    (answerable : Answerable state) (calm : state.forward ≠ .panicked) :
    ∃ further final, (serverMachine parse).Run state further final ∧
      (∀ taken ∈ further, taken.2.CatchesUp) ∧ final.CaughtUp := by
  have progress : ∀ state : ServerState,
      ((∃ trace, (serverMachine parse).Run .start trace state) ∧ Answerable state ∧
        state.forward ≠ .panicked) → ¬ state.CaughtUp →
      ∃ label next, ServerLabel.CatchesUp label ∧
        (serverMachine parse).step state label = some next ∧
        ((∃ trace, (serverMachine parse).Run .start trace next) ∧ Answerable next ∧
          next.forward ≠ .panicked) ∧ next.work < state.work := by
    rintro state ⟨⟨trace, run⟩, answerable, calm⟩ behind
    obtain ⟨label, next, catches, taken, further⟩ :=
      progress_of_answerable run answerable calm behind
    have works : label.Works := by
      cases label with
      | forward | write => trivial
      | _ => exact catches.elim
    exact ⟨label, next, catches, taken, ⟨⟨_, run.snoc taken⟩, further⟩,
      server_shrinks parse works taken⟩
  exact Machine.leads_to_rest progress state ⟨⟨trace, run⟩, answerable, calm⟩

/-- Where every answer can be sent, a server whose listener is bound comes to its end. -/
theorem terminates_of_answerable (run : (serverMachine parse).Run .start trace state)
    (binds : Machine.Guarded Binds trace) (answerable : Answerable state)
    (calm : state.forward ≠ .panicked) : Terminates parse state := by
  obtain ⟨further, final, onward, catches, caught⟩ := catches_up run answerable calm
  have whole := run.append onward
  have bound : Machine.Guarded Binds (trace ++ further) := by
    intro step member
    rcases List.mem_append.mp member with before | later
    · exact binds step before
    · intro fails
      have turn := catches step later
      rw [fails] at turn
      exact turn
  have inv := returnAnnounced_of_run whole bound
  refine .leads ⟨further, onward⟩ ?_
  rcases caught with ⟨waits, drained⟩ | exited
  · cases place : final.accept with
    | binding => exact terminates_of_binding inv.toExitInv waits drained place
    | accepting => exact terminates_of_accepting inv.toExitInv waits drained place
    | registering ref => exact terminates_of_registering inv.toExitInv waits drained place
    | announcing => exact terminates_of_announcing inv.toExitInv waits drained place
    | returned =>
        obtain ⟨message, member, -⟩ := awake_of_announced inv place (by rw [waits]; rfl)
        rw [drained] at member
        cases member
  · exact terminates_of_exited inv.toExitInv (returned_of_exited whole exited) exited

/-- In every run the exit message is never missing exactly when the listener was bound, and
`TERMINATED` can still be called exactly when, besides, the unwrapped sends made so far have
arrived and those that are due can. -/
theorem serverCompletes_iff (run : (serverMachine parse).Run .start trace state) :
    (ExitAnnounced state ↔ Machine.Guarded Binds trace) ∧
      (ServerCompletes parse state ↔ Machine.Guarded Binds trace ∧
        Machine.Guarded SendArrives trace ∧ Answerable state) := by
  have announces := exitAnnounced_iff run
  refine ⟨announces, fun completes => ?_, ?_⟩
  · exact ⟨announces.mp completes.toExitAnnounced,
      answerable_of_terminates run completes.terminates⟩
  · rintro ⟨binds, arrives, answerable⟩
    have calm := ((forwardHandles_iff run).mpr arrives).calm
    exact ⟨announces.mpr binds, terminates_of_answerable run binds answerable calm⟩

instance : (listed : Bool) → (messages : List Message) →
    Decidable (RegisteredAhead ref listed messages)
  | _, [] => .isTrue trivial
  | listed, message :: rest =>
      have := instDecidableRegisteredAhead (listed || message.enters ref) rest
      inferInstanceAs (Decidable (_ ∧ _))

instance (link : LinkState) (count : Nat) : Decidable (link.Fits count) :=
  inferInstanceAs (Decidable (_ ∨ _ ∧ ∀ left ∈ link.unreceived, left + count ≤ 1024))

instance (state : ServerState) (ref : LinkRef) (link : LinkState) :
    Decidable (AnswersTo state ref link) :=
  decidable_of_iff ((state.owed ref ≠ [] → state.lists ref) ∧
      RegisteredAhead ref (state.lists ref || state.forward.current.any (Message.enters ref))
        state.ahead ∧ link.Fits (state.due ref).length)
    ⟨fun ⟨listed, registered, room⟩ => ⟨listed, registered, room⟩,
      fun answers => ⟨answers.listed, answers.registered, answers.room⟩⟩

instance (state : ServerState) : Decidable (Answerable state) :=
  decidable_of_iff (∀ index < state.created.length,
      ∀ link ∈ state.link ⟨index⟩, AnswersTo state ⟨index⟩ link)
    ⟨fun every ref link found => every ref.index (link_lt found) link found,
      fun answerable index _ link found => answerable ⟨index⟩ link found⟩

/-- The server is shut down with a client's SETTINGS frame still in the queue. -/
def shutAnswering : List ServerLabel :=
  [.bind true, .connect ⟨7⟩ settingsPeer, .register, .forward, .forward, .forward, .read ⟨0⟩,
    .read ⟨0⟩, .read ⟨0⟩, .shutdown, .timeout, .announceExit]

/-- A server is shut down while two answers are due, and completes its shutdown. -/
theorem shutAnswering_completes :
    ∃ state trace, (serverMachine fun _ => .incomplete).Run .start trace state ∧
      state.accept = .returned ∧ (state.due ⟨0⟩).length = 2 ∧
      ServerCompletes (fun _ => .incomplete) state := by
  obtain ⟨state, run, checked⟩ := @Machine.run_of_exec_any _ _ (serverMachine fun _ => .incomplete)
    .start shutAnswering (fun state => state.accept = .returned && (state.due ⟨0⟩).length == 2 &&
      Answerable state) (by decide)
  simp only [Bool.and_eq_true, decide_eq_true_eq, beq_iff_eq] at checked
  have binds : Machine.Guarded Binds
      ((serverMachine fun _ => .incomplete).traceOf .start shutAnswering) := by
    unfold Machine.Guarded
    decide
  have arrives : Machine.Guarded SendArrives
      ((serverMachine fun _ => .incomplete).traceOf .start shutAnswering) := by
    unfold Machine.Guarded
    decide
  exact ⟨state, _, run, checked.1.1, checked.1.2,
    (serverCompletes_iff run).2.mpr ⟨binds, arrives, checked.2⟩⟩

/-- A listener that cannot be bound: the accept loop returns without a word. -/
theorem unbound_not_completes :
    ∃ state trace, (serverMachine fun _ => .incomplete).Run .start trace state ∧
      ¬ ServerCompletes (fun _ => .incomplete) state := by
  obtain ⟨state, run, checked⟩ := @Machine.run_of_exec_any _ _ (serverMachine fun _ => .incomplete)
    .start [.bind false] (fun state => state.accept = .returned && state.history.isEmpty)
    (by decide)
  simp only [Bool.and_eq_true, decide_eq_true_eq, List.isEmpty_iff] at checked
  refine ⟨state, _, run, fun completes => ?_⟩
  obtain ⟨message, member, -⟩ := completes.announced checked.1
  rw [checked.2] at member
  cases member

end H2l
