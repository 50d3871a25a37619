import H2l.Server.Completion
import Mathlib.Data.List.TakeWhile

/-!
# No write loop is left waiting

A write loop waits on its queue until a notice makes it leave. The notice starts as the last
message of the link's read loop, and the forward loop passes it on. `noticeKept` follows it
the whole way: where both loops do their part, a link whose reader has ended has been
notified or its message is still before the forward loop, and a write loop is never left
behind on an empty queue.
-/

namespace H2l

open Base

/-- A message of the link's loops that tells of its closed reader is among these. -/
def ClosedAmong (messages : List Message) (ref : LinkRef) : Bool :=
  messages.any fun message => message.sender == some ref && message.body.closes

/-- The next step of the read loop unwinds it. -/
def ReaderPc.unwinds (parse : HttpParser) : ReaderPc → Bool
  | handshaking stream => match (Link.handshake parse stream).1 with
    | .panic _ => true
    | _ => false
  | reading input => match (Link.readFrame input).1 with
    | .panic _ => true
    | _ => false
  | _ => false

/-- Neither loop that carries a notice unwinds, and the exit message is sent behind the notices of
all links. -/
def Proceeds (parse : HttpParser) (state : ServerState) : ServerLabel → Prop
  | .forward => SendArrives state .forward
  | .read ref => ∀ link ∈ state.link ref, link.reader.unwinds parse = false
  | .announceExit => ∀ index < state.created.length,
      state.notified ⟨index⟩ || ClosedAmong state.history ⟨index⟩
  | _ => True

/-- No link whose peer has closed is left with a write loop that waits forever. -/
structure NoneAbandoned (parse : HttpParser) (state : ServerState) : Prop where
  /-- A link whose read loop has ended was notified, or the forward loop comes to its message. -/
  onItsWay : ∀ ref link, state.link ref = some link → link.reader.ended →
    link.notified ∨ ClosedAmong (state.forward.current ++ state.ahead) ref
  /-- Where neither its own loops nor the forward loop go on, the write loop has left. -/
  leaves : ∀ ref link, state.link ref = some link →
    (serverMachine parse).step state (.read ref) = none →
    (serverMachine parse).step state .forward = none →
    (serverMachine parse).step state (.write ref true) = none → link.writer.left

/-- What the notices on their way rest on. -/
structure TravelInv (state : ServerState) : Prop where
  running : ∀ ref link, state.link ref = some link → link.reader ≠ .panicked
  posted : ∀ ref link, state.link ref = some link → link.reader = .closing .finished →
    link.writer.left ∨ ClosedAmong state.history ref
  lasting : (state.history.any fun message => message.body.exits) →
    ∀ ref link, state.link ref = some link → link.notified ∨
      ClosedAmong (state.history.takeWhile fun message => !message.body.exits) ref

variable {parse : HttpParser} {state after : ServerState} {label : ServerLabel}
  {trace : List (ServerState × ServerLabel)} {ref : LinkRef} {link next : LinkState}

/-- A closing message of the link is among these messages. -/
theorem closedAmong_iff {messages : List Message} :
    ClosedAmong messages ref ↔
      ∃ message ∈ messages, message.sender = some ref ∧ message.body.closes := by
  simp [ClosedAmong]

/-- More messages tell of no fewer links. -/
theorem closedAmong_mono {messages more : List Message} (closed : ClosedAmong messages ref)
    (among : ∀ message ∈ messages, message ∈ more) : ClosedAmong more ref := by
  obtain ⟨message, member, tells⟩ := closedAmong_iff.mp closed
  exact closedAmong_iff.mpr ⟨message, among message member, tells⟩

/-- A link that was notified stays so. -/
theorem notified_of_step (found : state.link ref = some link) (notified : link.notified)
    (taken : (serverMachine parse).step state label = some after) :
    ∃ next, after.link ref = some next ∧ next.notified := by
  obtain ⟨next, there, rfl | ⟨sent, move⟩⟩ := (linksMove_of_move (step_move taken)).link found
  · exact ⟨next, there, notified⟩
  · exact ⟨next, there, move.notified notified⟩

/-- A read loop stands where it stood, unless it takes the step itself. -/
theorem reader_kept (other : label ≠ .read ref)
    (taken : (serverMachine parse).step state label = some after)
    (there : after.link ref = some next) :
    (∃ token stream, label = .connect token stream ∧ next = .new token stream) ∨
      ∃ link, state.link ref = some link ∧ next.reader = link.reader ∧
        (link.writer.left → next.writer.left) := by
  cases link_turn taken there with
  | accepted connects => exact .inl ⟨_, _, connects, rfl⟩
  | kept found => exact .inr ⟨next, found, rfl, id⟩
  | read moves => exact absurd moves other
  | @wrote written link next sent moves found turn =>
      have reader : next.reader = link.reader := by cases turn <;> rfl
      exact .inr ⟨link, found, reader, (turn.move parse).left⟩
  | queued found => exact .inr ⟨_, found, rfl, id⟩

/-- The last message of a read loop tells of its end, unless the write loop has left. -/
theorem closes_of_exit {pc : ExitPc} {word : Word} {message : Option LinkFlags}
    (closes : link.Closes) (place : link.reader = .closing pc)
    (advances : pc.advance .reader link.word = some (.finished, word, message)) :
    link.writer.left ∨ message = some .readClosed := by
  cases left : link.writer.left with
  | true => exact .inl rfl
  | false =>
      have finds := closes left
      rw [place] at finds
      have exact := (finds_advance finds advances).2
      cases pc with
      | announce flags =>
          cases advances
          exact .inr (congrArg some (exact flags rfl))
      | _ => cases advances

/-- A step of a read loop does not unwind it, and the last one leaves its message behind. -/
theorem travels_of_read (closes : ∀ ref link, state.link ref = some link → link.Closes)
    (calm : ∀ link ∈ state.link ref, link.reader.unwinds parse = false)
    (taken : (serverMachine parse).step state (.read ref) = some after)
    (there : after.link ref = some next) :
    next.reader ≠ .panicked ∧ (next.reader = .closing .finished →
      next.writer.left ∨ ClosedAmong after.history ref) := by
  cases loop_turn rfl taken with
  | @read _ link moved sent channel found turn items =>
      have same : moved = next := by
        simp only [ServerState.link, link_set (link_lt found), if_true, Option.some.injEq] at there
        exact there
      subst same
      have calm := calm link found
      cases turn with
      | shakeUnwound pc unwinds => simp [ReaderPc.unwinds, pc, unwinds] at calm
      | unwound pc reads => simp [ReaderPc.unwinds, pc, reads] at calm
      | @exits pc after word message place advances =>
          refine ⟨by simp, fun finished => ?_⟩
          simp only [ReaderPc.closing.injEq] at finished
          subst finished
          refine (closes_of_exit (closes ref link found) place advances).imp id fun last => ?_
          refine closedAmong_iff.mpr
            ⟨⟨.linkChanged .readClosed link.token, some ref⟩, ?_, rfl, by
              simp [Transaction.closes, FlagSet.contains]⟩
          simp [ServerState.history, items, last]
      | _ => exact ⟨by simp, by simp⟩

/-- A step only adds to the history. -/
theorem history_grows (taken : (serverMachine parse).step state label = some after) :
    state.history <+: after.history := by
  obtain ⟨sent, -, history⟩ := posting_of_move (step_move taken)
  exact ⟨_, history.symm⟩

/-- Where each notice arrives and each loop goes on, every reader runs to its end and leaves its
message behind. -/
theorem posted_of_step (closes : ∀ ref link, state.link ref = some link → link.Closes)
    (inv : TravelInv state) (proceeds : Proceeds parse state label)
    (taken : (serverMachine parse).step state label = some after)
    (there : after.link ref = some next) :
    next.reader ≠ .panicked ∧ (next.reader = .closing .finished →
      next.writer.left ∨ ClosedAmong after.history ref) := by
  by_cases reads : label = .read ref
  · subst reads
    exact travels_of_read closes proceeds taken there
  · rcases reader_kept reads taken there with
      ⟨token, stream, -, rfl⟩ | ⟨link, found, reader, left⟩
    · exact ⟨by simp [LinkState.new], by simp [LinkState.new]⟩
    · rw [reader]
      refine ⟨inv.running ref link found, fun finished => ?_⟩
      exact (inv.posted ref link found finished).imp left fun closed =>
        closedAmong_mono closed fun message => (history_grows taken).mem

/-- The accept loop returns with its exit message by the step that sends it. -/
theorem announces_of_returned (announcing : state.accept = .announcing)
    (returned : after.accept = .returned)
    (taken : (serverMachine parse).step state label = some after) :
    label = .announceExit ∧ after.created = state.created := by
  have apart : after.accept ≠ state.accept := by rw [announcing, returned]; simp
  cases step_move taken with
  | looped mover step => exact absurd step.frame.accept apart
  | forwarded move => exact absurd (forward_turn move).acceptor.1 apart
  | user idle other move => exact absurd move.frame.accept apart
  | acceptor idle other move =>
      cases move with
      | announced => exact ⟨rfl, rfl⟩
      | unbound place => cases announcing.symm.trans place
      | awaited | terminated => exact absurd rfl apart
      | _ => cases returned

/-- What stands before the exit message does not change. -/
theorem takeWhile_of_exit {messages more : List Message}
    (announced : messages.any fun message => message.body.exits) :
    ((messages ++ more).takeWhile fun message => !message.body.exits) =
      messages.takeWhile fun message => !message.body.exits := by
  rw [List.takeWhile_append, if_neg]
  intro whole
  have all := (List.takeWhile_prefix (l := messages)
    fun message : Message => !message.body.exits).eq_of_length whole
  rw [List.takeWhile_eq_self_iff] at all
  obtain ⟨message, member, exits⟩ := List.any_eq_true.mp announced
  have open' := all message member
  simp [exits] at open'

/-- An accept loop that has returned accepts no more links. -/
theorem link_of_returned (returned : state.accept = .returned)
    (taken : (serverMachine parse).step state label = some after)
    (there : after.link ref = some next) : ∃ link, state.link ref = some link := by
  cases link_turn taken there with
  | accepted connects =>
      subst connects
      simp [serverMachine, ServerState.step, ServerState.acceptStep, ServerState.userStep,
        returned] at taken
  | kept found | read _ found | wrote _ found | queued found => exact ⟨_, found⟩

/-- The exit message comes behind the notices of all links. -/
theorem lasting_of_step (exits : ExitInv state) (inv : TravelInv state)
    (proceeds : Proceeds parse state label)
    (taken : (serverMachine parse).step state label = some after)
    (announced : after.history.any fun message => message.body.exits)
    (there : after.link ref = some next) :
    next.notified ∨
      ClosedAmong (after.history.takeWhile fun message => !message.body.exits) ref := by
  obtain ⟨sent, posting, history⟩ := posting_of_move (step_move taken)
  rw [history] at announced ⊢
  cases before : state.history.any fun message => message.body.exits with
  | true =>
      rw [takeWhile_of_exit before]
      obtain ⟨message, member, exit⟩ := List.any_eq_true.mp before
      obtain ⟨link, found⟩ := link_of_returned (exits.returned message member exit) taken there
      refine (inv.lasting before ref link found).imp (fun notified => ?_) id
      obtain ⟨same, there', notified⟩ := notified_of_step found notified taken
      rw [there, Option.some.injEq] at there'
      exact there' ▸ notified
  | false =>
      rw [List.any_append, before, Bool.false_or] at announced
      obtain ⟨message, member, exit⟩ := List.any_eq_true.mp announced
      obtain ⟨announcing, returned⟩ := exits_of_posting posting member exit
      obtain ⟨rfl, created⟩ := announces_of_returned announcing returned taken
      have found : state.link ref = some next := by rw [ServerState.link, ← created]; exact there
      have closed := proceeds ref.index (link_lt found)
      simp only [ServerState.notified, found, Option.any_some, Bool.or_eq_true] at closed
      refine closed.imp id fun closed => closedAmong_mono closed fun message member => ?_
      simp only [List.any_eq_false] at before
      rw [List.takeWhile_append_of_pos (by simpa using before)]
      exact List.mem_append_left _ member

/-- In a run where every notice arrives and no read loop unwinds, no notice is lost on its way. -/
theorem travelInv_of_run (run : (serverMachine parse).Run .start trace state)
    (arrives : Machine.Guarded NoticeArrives trace)
    (proceeds : Machine.Guarded (Proceeds parse) trace) : TravelInv state := by
  induction run with
  | nil => exact ⟨by simp [ServerState.link, ServerState.start],
      by simp [ServerState.link, ServerState.start], by simp [ServerState.link, ServerState.start]⟩
  | snoc prior taken ih =>
      obtain ⟨arrived, -⟩ := Machine.guarded_snoc_iff.mp arrives
      obtain ⟨earlier, last⟩ := Machine.guarded_snoc_iff.mp proceeds
      have inv := ih arrived earlier
      have closes := (closingInv_of_run prior arrived).links
      exact ⟨fun ref link there => (posted_of_step closes inv last taken there).1,
        fun ref link there => (posted_of_step closes inv last taken there).2,
        fun announced ref link there =>
          lasting_of_step (exitInv_of_run prior) inv last taken announced there⟩

/-- A write loop that was notified and cannot move has left. -/
theorem left_of_notified (found : state.link ref = some link) (notified : link.notified)
    (rests : (serverMachine parse).step state (.write ref true) = none) : link.writer.left := by
  have still : state.writeStep ref true link = none := by
    simpa only [serverMachine, ServerState.step, found, Option.bind_some] using rests
  cases pc : link.writer with
  | receiving =>
      simp only [ServerState.writeStep, pc, Option.map_eq_none_iff,
        Channel.recv_eq_none_iff] at still
      simp [LinkState.notified, pc, WriterPc.left, still] at notified
  | writing tr => simp [ServerState.writeStep, pc] at still
  | closing exit => rfl

/-- A forward loop that leaves has consumed the exit message. -/
theorem exit_of_leaves (good : ForwardGood state) (leaves : state.forward.leaves) :
    state.consumed.any fun message => message.body.exits := by
  rw [List.any_eq_true]
  have left : (state.forward = .exited ∨ ∃ tr, state.forward = .calling tr true) →
      ∃ message ∈ state.consumed, message.body.exits := fun place => by
    obtain ⟨message, member, exit⟩ := good.leaving place
    exact ⟨message, member, by rw [exit]; rfl⟩
  cases pc : state.forward with
  | handling message =>
      rw [pc] at leaves
      exact ⟨message, good.handling message pc, leaves⟩
  | calling tr last =>
      rw [pc] at leaves
      obtain rfl : last = true := leaves
      exact left (.inr ⟨tr, pc⟩)
  | exited => exact left (.inl pc)
  | _ => rw [pc] at leaves; cases leaves

/-- A message that stands before the exit message was passed on, or the forward loop comes to it. -/
theorem passed_or_ahead (good : ForwardGood state) (inv : ClosingInv state)
    (found : state.link ref = some link)
    (closed : ClosedAmong (state.history.takeWhile fun message => !message.body.exits) ref) :
    link.notified ∨ ClosedAmong (state.forward.current ++ state.ahead) ref := by
  obtain ⟨message, member, sender, closes⟩ := closedAmong_iff.mp closed
  obtain ⟨earlier, consumed, handled⟩ := inv.handled
  by_cases came : message ∈ state.consumed
  · rw [consumed] at came
    rcases List.mem_append.mp came with before | current
    · left
      have notified := handled message before ref sender closes
      simpa [ServerState.notified, found] using notified
    · exact .inr (closedAmong_iff.mpr
        ⟨message, List.mem_append_left _ current, sender, closes⟩)
  · right
    cases exits : state.consumed.any fun message => message.body.exits with
    | true =>
        rw [ServerState.history, takeWhile_of_exit exits] at member
        exact absurd ((List.takeWhile_sublist _).mem member) came
    | false =>
        have stays : state.forward.leaves = false := by
          refine Bool.eq_false_iff.mpr fun leaves => ?_
          rw [exit_of_leaves good leaves] at exits
          cases exits
        simp only [List.any_eq_false] at exits
        rw [ServerState.history, List.takeWhile_append_of_pos (by simpa using exits)] at member
        have queued := (List.mem_append.mp member).resolve_left came
        refine closedAmong_iff.mpr ⟨message, List.mem_append_right _ ?_, sender, closes⟩
        rwa [ServerState.ahead, if_neg (by simp [stays])]

/-- The message of a read loop that has ended stands before the exit message. -/
theorem closed_of_ended (inv : TravelInv state) (found : state.link ref = some link)
    (ended : link.reader.ended) : link.notified ∨
      ClosedAmong (state.history.takeWhile fun message => !message.body.exits) ref := by
  cases exits : state.history.any fun message => message.body.exits with
  | true => exact inv.lasting exits ref link found
  | false =>
      simp only [List.any_eq_false] at exits
      rw [List.takeWhile_eq_self_iff.mpr (by simpa using exits)]
      have finished : link.reader = .closing .finished := by
        cases pc : link.reader with
        | panicked => exact absurd pc (inv.running ref link found)
        | closing exit =>
            rw [pc] at ended
            cases exit with
            | finished => rfl
            | _ => cases ended
        | _ => rw [pc] at ended; cases ended
      refine (inv.posted ref link found finished).imp (fun left => ?_) id
      simp [LinkState.notified, left]

/-- Where neither the link's read loop nor the forward loop goes on, the link was notified. -/
theorem notified_of_still (good : ForwardGood state) (closing : ClosingInv state)
    (inv : TravelInv state) (found : state.link ref = some link)
    (reads : (serverMachine parse).step state (.read ref) = none)
    (forwards : (serverMachine parse).step state .forward = none) : link.notified := by
  have caught : state.CaughtUp := Classical.byContradiction fun behind => by
    obtain ⟨next, taken⟩ := forward_steps parse good.calm behind
    rw [forwards] at taken
    cases taken
  have passed : ClosedAmong (state.history.takeWhile fun message => !message.body.exits) ref →
      link.notified := fun closed => by
    refine (passed_or_ahead good closing found closed).resolve_right fun coming => ?_
    rcases caught with ⟨waits, drained⟩ | exited
    · simp [waits, ServerState.ahead, drained, ClosedAmong] at coming
    · simp [exited, ForwardPc.current, ServerState.ahead, ForwardPc.leaves, ClosedAmong] at coming
  rcases caught with ⟨-, drained⟩ | exited
  · have room : state.channel.items.length < 4096 := by rw [drained]; decide
    exact (closed_of_ended inv found (reader_atRest reads room found)).elim id passed
  · have announced := exit_of_leaves good (by rw [exited]; rfl)
    refine (inv.lasting ?_ ref link found).elim id passed
    rw [ServerState.history, List.any_append, announced]
    rfl

/-- Where the loops go on, the unwrapped sends of the forward loop arrive. -/
theorem arrives_of_proceeds (proceeds : Machine.Guarded (Proceeds parse) trace) :
    Machine.Guarded SendArrives trace := by
  rintro ⟨before, label⟩ member
  cases label with
  | forward => exact proceeds _ member
  | _ => trivial

/-- In every run in which the forward loop passes each notice on where it arrives, none of those it
has consumed is lost; where, besides, no loop on its way unwinds or leaves before it, no link is
left with a write loop that waits forever. -/
theorem noticeKept (run : (serverMachine parse).Run .start trace state)
    (arrives : Machine.Guarded NoticeArrives trace) :
    NoticeKept state ∧
      (Machine.Guarded (Proceeds parse) trace → NoneAbandoned parse state) := by
  refine ⟨noticeKept_of_arrives run arrives, fun proceeds => ?_⟩
  have closing := closingInv_of_run run arrives
  have inv := travelInv_of_run run arrives proceeds
  have good : ForwardGood state :=
    run.invariant (arrives_of_proceeds proceeds) (forwardGood_of_staying (.inl rfl))
      forwardGood_of_step
  refine ⟨fun ref link found ended => ?_, fun ref link found reads forwards writes => ?_⟩
  · exact (closed_of_ended inv found ended).elim .inl (passed_or_ahead good closing found)
  · exact left_of_notified found (notified_of_still good closing inv found reads forwards) writes

instance (parse : HttpParser) (state : ServerState) :
    (label : ServerLabel) → Decidable (Proceeds parse state label)
  | .forward => inferInstanceAs (Decidable (SendArrives state .forward))
  | .read ref =>
      inferInstanceAs (Decidable (∀ link ∈ state.link ref, link.reader.unwinds parse = false))
  | .announceExit => inferInstanceAs (Decidable (∀ index < state.created.length,
      state.notified ⟨index⟩ || ClosedAmong state.history ⟨index⟩))
  | .bind _ | .connect _ _ | .endAccept | .timeout | .register | .write _ _ | .main | .shutdown
  | .find _ | .drop _ | .send _ _ | .sendTo _ _ => inferInstanceAs (Decidable True)

/-- The server is shut down once the forward loop has passed the notice on. -/
def closedThenShut : List ServerLabel := closedAfter ++ [.shutdown, .timeout, .announceExit]

/-- A peer closes, the server is shut down, and no write loop is left behind. -/
theorem closedThenShut_noticeKept :
    ∃ state trace, (serverMachine fun _ => .incomplete).Run .start trace state ∧
      state.bothConsumed ∧ state.accept = .returned ∧ NoticeKept state ∧
      NoneAbandoned (fun _ => .incomplete) state := by
  obtain ⟨state, run, checked⟩ := @Machine.run_of_exec_any _ _ (serverMachine fun _ => .incomplete)
    .start closedThenShut (fun state => state.bothConsumed && state.accept = .returned) (by decide)
  rw [Bool.and_eq_true, decide_eq_true_eq] at checked
  have arrives : Machine.Guarded NoticeArrives
      ((serverMachine fun _ => .incomplete).traceOf .start closedThenShut) := by
    unfold Machine.Guarded
    decide
  have proceeds : Machine.Guarded (Proceeds fun _ => .incomplete)
      ((serverMachine fun _ => .incomplete).traceOf .start closedThenShut) := by
    unfold Machine.Guarded
    decide
  have kept := noticeKept run arrives
  exact ⟨state, _, run, checked.1, checked.2, kept.1, kept.2 proceeds⟩

end H2l
