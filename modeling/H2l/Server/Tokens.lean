import H2l.Server.History

/-!
# Reused tokens

A token names a link only while something holds the link: a new connection may take the
token of a link that nobody holds any more. `noCrossTalk` says that a message of a link
reaches that link or none, however often tokens are reused.
-/

namespace H2l

open Base

/-- The token under which the forward loop is about to look a link up. -/
def ForwardPc.lookup : ForwardPc → Option Token
  | handling message => message.body.lookup
  | acknowledging token => some (token.getD ⟨0⟩)
  | _ => none

/-- What the forward loop applies goes to the link that sent it, or to none, and a registration
finds its token free. -/
structure NoCrossTalk (state : ServerState) : Prop where
  current : ∀ message, state.forward = .handling message →
    state.consumed.getLast? = some message
  applied : ∀ token ∈ state.forward.lookup, ∃ message ref,
    state.consumed.getLast? = some message ∧ message.sender = some ref ∧
      state.tokenOf ref = token ∧ (state.links token = none ∨ state.links token = some ref)
  registered : ∀ message ref, state.forward = .handling message →
    message.body = .newLink ref → state.links (state.tokenOf ref) = none
  /-- The next step leaves every other link, and its entry, as they are. -/
  spares : ∀ after ref, state.forwardStep = some after →
    state.consumed.getLast?.bind Message.sender ≠ some ref →
    after.link ref = state.link ref ∧
      ∀ token, state.links token = some ref → after.links token = some ref

/-- What keeps a link alive. -/
inductive Holder (state : ServerState) (ref : LinkRef) : Prop where
  | table (listed : state.links (state.tokenOf ref) = some ref)
  | queued {message} (member : message ∈ state.channel.items)
      (registers : message.body = .newLink ref)
  | registering (place : state.accept = .registering ref)
  | handling {message} (pc : state.forward = .handling message)
      (registers : message.body = .newLink ref)
  | user (member : ref ∈ state.held)
  | running {link} (found : state.link ref = some link)
      (alive : (link.reader.ended && link.writer.ended) = false)

variable {parse : HttpParser} {state after : ServerState}

/-- A link is held by the table, a message, a task or user code. -/
theorem isHeld_iff (state : ServerState) (ref : LinkRef) :
    state.isHeld ref ↔ Holder state ref := by
  constructor
  · intro held
    simp only [ServerState.isHeld, Bool.or_eq_true, beq_iff_eq, List.any_eq_true,
      decide_eq_true_eq, List.contains_iff_mem, Option.any_eq_true, Bool.not_eq_true'] at held
    obtain ((((listed | ⟨message, member, registers⟩) | place) | handling) | member) |
      ⟨link, found, alive⟩ := held
    · exact .table listed
    · exact .queued member registers
    · exact .registering place
    · split at handling
      next message pc => exact .handling pc (by simpa using handling)
      next => cases handling
    · exact .user member
    · exact .running found alive
  · intro holds
    simp only [ServerState.isHeld, Bool.or_eq_true, beq_iff_eq, List.any_eq_true,
      decide_eq_true_eq, List.contains_iff_mem, Option.any_eq_true, Bool.not_eq_true']
    cases holds with
    | table listed => simp [listed]
    | queued member registers => exact .inl (.inl (.inl (.inl (.inr ⟨_, member, registers⟩))))
    | registering place => simp [place]
    | handling pc registers => simp [pc, registers]
    | user member => simp [member]
    | running found alive => exact .inr ⟨_, found, alive⟩

/-- A loop that moves has not ended. -/
theorem LinkMove.alive {link next : LinkState} {sent : Option Transaction}
    (move : LinkMove parse link next sent) : (link.reader.ended && link.writer.ended) = false := by
  cases move with
  | @readerExits pc next word message place advances =>
      cases pc with
      | finished => cases advances
      | _ => simp [place, ReaderPc.ended]
  | @writerExits pc next word message place advances =>
      cases pc with
      | finished => cases advances
      | _ => simp [place, WriterPc.ended]
  | queued alive => simp [alive]
  | _ => simp_all [ReaderPc.ended, WriterPc.ended]

theorem LinkMove.token {link next : LinkState} {sent : Option Transaction}
    (move : LinkMove parse link next sent) : next.token = link.token := by
  cases move <;> rfl

/-- Tokens never change. -/
theorem LinksMove.tokenOf (moves : LinksMove parse state after) {ref : LinkRef}
    (old : ref.index < state.created.length) : after.tokenOf ref = state.tokenOf ref := by
  obtain ⟨link, found⟩ := link_of_lt old
  obtain ⟨next, found', become⟩ := moves.link found
  have same : next.token = link.token := by
    rcases become with rfl | ⟨sent, move⟩
    · rfl
    · exact move.token
  simp [ServerState.tokenOf, found, found', same]

/-- Whose loops still run, was running before. -/
theorem LinksMove.running (moves : LinksMove parse state after) {ref : LinkRef}
    (old : ref.index < state.created.length) {link : LinkState} (found : after.link ref = some link)
    (alive : (link.reader.ended && link.writer.ended) = false) : Holder state ref := by
  obtain ⟨before, there⟩ := link_of_lt old
  obtain ⟨next, found', become⟩ := moves.link there
  obtain rfl : next = link := Option.some.inj (found'.symm.trans found)
  rcases become with rfl | ⟨sent, move⟩
  · exact .running there alive
  · exact .running there move.alive

/-- Every entry of the table stands under the token of its link. -/
def Listed (state : ServerState) : Prop :=
  ∀ token ref, state.links token = some ref → state.tokenOf ref = token

/-- The table changes only where the forward loop handles a registration. -/
theorem links_of_move {label : ServerLabel} (move : ServerMove parse state label after)
    {token : Token} {ref : LinkRef} (there : after.links token = some ref) :
    state.links token = some ref ∨
      ∃ message, state.forward = .handling message ∧ message.body = .newLink ref ∧
        state.tokenOf ref = token := by
  cases move with
  | looped mover step => exact .inl (step.frame.links ▸ there)
  | acceptor idle other move => exact .inl (move.frame.links ▸ there)
  | user idle other move => exact .inl (move.frame.links ▸ there)
  | forwarded move =>
      have handle : ∀ {tr}, HandleMove state tr after → state.links token = some ref ∨
          tr = .newLink ref ∧ state.tokenOf ref = token := by
        intro tr move
        cases move with
        | went => exact .inl there
        | sent => exact .inl there
        | @inserted ref' registers =>
            simp only [ServerState.insert] at there
            split at there
            next same =>
              cases there
              exact .inr ⟨registers, same.symm⟩
            next => exact .inl there
        | @removed token' detaches =>
            simp only [ServerState.remove] at there
            split at there
            next => cases there
            next => exact .inl there
      cases forward_turn move with
      | received => exact .inl there
      | handled pc move =>
          exact (handle move).imp id fun registers => ⟨_, pc, registers.1, registers.2⟩
      | acknowledged pc move =>
          rcases handle move with there | ⟨registers, -⟩
          · exact .inl there
          · cases registers
      | called => exact .inl there

/-- A registration in the queue was there before, or the accept loop has just sent it. -/
theorem queued_of_move {label : ServerLabel} (move : ServerMove parse state label after)
    {message : Message} {ref : LinkRef} (member : message ∈ after.channel.items)
    (registers : message.body = .newLink ref) :
    message ∈ state.channel.items ∨ state.accept = .registering ref := by
  cases move with
  | looped mover step =>
      cases step with
      | @moved link next sent channel found move items =>
          rw [items, List.mem_append] at member
          refine member.imp id fun posted => ?_
          cases sent with
          | none => cases posted
          | some body =>
              have carries := move.lookup
              obtain rfl : message = ⟨body, some _⟩ := by simpa using posted
              obtain rfl : body = .newLink ref := registers
              cases carries
  | forwarded move =>
      cases forward_turn move with
      | received pc items => exact .inl (items ▸ List.mem_cons_of_mem _ member)
      | handled pc move | acknowledged pc move => exact .inl (move.frame.channel ▸ member)
      | called => exact .inl member
  | acceptor idle other move =>
      cases move with
      | registered place items =>
          rw [items, List.mem_append, List.mem_singleton] at member
          rcases member with member | rfl
          · exact .inl member
          · cases registers
            exact .inr place
      | announced place items =>
          rw [items, List.mem_append, List.mem_singleton] at member
          rcases member with member | rfl
          · exact .inl member
          · cases registers
      | _ => exact .inl member
  | user idle other move => exact .inl (move.frame.channel ▸ member)

/-- The accept loop registers the link that it was about to register, or a new one. -/
theorem registering_of_move {label : ServerLabel} (move : ServerMove parse state label after)
    {ref : LinkRef} (place : after.accept = .registering ref) :
    state.accept = .registering ref ∨
      ref.index = state.created.length ∧ ref.index < after.created.length := by
  cases move with
  | looped mover step => exact .inl (step.frame.accept ▸ place)
  | forwarded move =>
      cases forward_turn move with
      | handled _ move | acknowledged _ move => exact .inl (move.frame.accept ▸ place)
      | _ => exact .inl place
  | acceptor idle other move =>
      cases move with
      | accepted =>
          cases place
          exact .inr ⟨rfl, by simp⟩
      | awaited | terminated => exact .inl place
      | _ => cases place
  | user idle other move => exact .inl (move.frame.accept ▸ place)

/-- Nobody comes to hold a link again. -/
theorem Holder.earlier {label : ServerLabel} (move : ServerMove parse state label after)
    (listed : Listed state) {ref : LinkRef} (old : ref.index < state.created.length)
    (holds : Holder after ref) : Holder state ref := by
  have moves := linksMove_of_move move
  cases holds with
  | table there =>
      rw [moves.tokenOf old] at there
      rcases links_of_move move there with there | ⟨message, pc, registers, -⟩
      · exact .table there
      · exact .handling pc registers
  | queued member registers =>
      rcases queued_of_move move member registers with member | place
      · exact .queued member registers
      · exact .registering place
  | running found alive => exact moves.running old found alive
  | registering place =>
      rcases registering_of_move move place with place | ⟨fresh, -⟩
      · exact .registering place
      · omega
  | @handling message pc registers =>
      cases move with
      | looped mover step => exact .handling (step.frame.forward ▸ pc) registers
      | forwarded move =>
          have current : after.forward.current = [message] := by rw [pc, ForwardPc.current]
          cases forward_turn move with
          | received pc' items =>
              cases pc
              exact .queued (items ▸ List.mem_cons_self) registers
          | handled _ move | acknowledged _ move =>
              rw [move.free] at current
              cases current
          | @called tr last pc' => cases last <;> cases pc
      | acceptor idle other move => exact .handling (move.frame.forward ▸ pc) registers
      | user idle other move => exact .handling (move.frame.forward ▸ pc) registers
  | user member =>
      cases move with
      | looped mover step => exact .user (step.frame.held ▸ member)
      | forwarded move =>
          cases forward_turn move with
          | handled _ move | acknowledged _ move => exact .user (move.frame.held ▸ member)
          | _ => exact .user member
      | acceptor idle other move => exact .user (move.frame.held ▸ member)
      | user idle other move =>
          cases move with
          | @took token ref' there =>
              rcases List.mem_cons.mp member with rfl | member
              · exact .table (by rw [listed token _ there]; exact there)
              · exact .user member
          | dropped => exact .user (List.mem_of_mem_erase member)
          | _ => exact .user member

/-- After the registration of a link comes no other registration of it, and no message of an older
link with its token. -/
def Precedes (state : ServerState) (message later : Message) : Prop :=
  ∀ ref, message.body = .newLink ref → later.body ≠ .newLink ref ∧
    ∀ older, later.sender = some older → older.index < ref.index →
      state.tokenOf older ≠ state.tokenOf ref

/-- Where the forward loop stands: everything it consumed but the current message has been
applied, and the table holds registered links under their tokens. -/
structure Applied (state : ServerState) (earlier : List Message) : Prop where
  consumed : state.consumed = earlier ++ state.forward.current
  listed : ∀ token ref, state.links token = some ref → state.tokenOf ref = token ∧
    ∃ message ∈ earlier, message.body = .newLink ref
  acknowledging : ∀ token, state.forward = .acknowledging token →
    ∃ message, earlier.getLast? = some message ∧ message.body.lookup = some (token.getD ⟨0⟩)

/-- What the separation of links with one token rests on. -/
structure TokenInv (state : ServerState) : Prop where
  older : ∀ older ref, older.index < ref.index → ref.index < state.created.length →
    state.tokenOf older = state.tokenOf ref → ¬ Holder state older
  sent : ∀ message ∈ state.history, message.body.lookup = none ∨
    ∃ ref, message.sender = some ref ∧ ref.index < state.created.length ∧
      message.body.lookup = some (state.tokenOf ref)
  known : ∀ message ∈ state.history, ∀ ref, message.body = .newLink ref →
    ref.index < state.created.length
  pending : ∀ ref, state.accept = .registering ref →
    ref.index < state.created.length ∧ ∀ message ∈ state.history, message.body ≠ .newLink ref
  ordered : state.history.Pairwise (Precedes state)
  applied : ∃ earlier, Applied state earlier

/-- The invariant holds before the first step. -/
theorem tokenInv_start : TokenInv .start where
  older _ _ _ bound := absurd bound (Nat.not_lt_zero _)
  sent _ member := absurd member List.not_mem_nil
  known _ member := absurd member List.not_mem_nil
  pending _ place := by cases place
  ordered := .nil
  applied := ⟨[], rfl, by simp [ServerState.start], by simp [ServerState.start]⟩

theorem TokenInv.listed (inv : TokenInv state) : Listed state := by
  obtain ⟨earlier, applied⟩ := inv.applied
  exact fun token ref there => (applied.listed token ref there).1

theorem link_token {ref : LinkRef} {link : LinkState} (found : state.link ref = some link) :
    state.tokenOf ref = link.token := by
  simp [ServerState.tokenOf, found]

/-- No older link with the token of a link is held. -/
theorem older_of_move {label : ServerLabel} (inv : TokenInv state)
    (move : ServerMove parse state label after) {older ref : LinkRef}
    (before : older.index < ref.index) (bound : ref.index < after.created.length)
    (same : after.tokenOf older = after.tokenOf ref) : ¬ Holder after older := by
  intro holds
  have moves := linksMove_of_move move
  by_cases old : ref.index < state.created.length
  · have old' : older.index < state.created.length := Nat.lt_trans before old
    rw [moves.tokenOf old', moves.tokenOf old] at same
    exact inv.older older ref before old same (holds.earlier move inv.listed old')
  · cases moves with
    | kept created => exact old (created ▸ bound)
    | moved _ _ created => exact old (by simpa [created] using bound)
    | @accepted token stream free created =>
        have fresh : ref.index = state.created.length := by
          simp only [created, List.length_append, List.length_singleton] at bound
          omega
        have old' : older.index < state.created.length := fresh ▸ before
        have named : after.tokenOf ref = token := by
          simp [ServerState.tokenOf, ServerState.link, created, fresh, LinkState.new]
        rw [(linksMove_of_move move).tokenOf old', named] at same
        have held := (isHeld_iff state older).mpr (holds.earlier move inv.listed old')
        simp only [ServerState.tokenFree, List.all_eq_true, List.mem_range] at free
        simpa [held, same] using free older.index old'

/-- What a step adds is new to the history and comes from a link that is held. -/
theorem precedes_of_posting {label : ServerLabel} (inv : TokenInv state)
    (moves : LinksMove parse state after) {added : Message}
    (posting : Posting parse state label after (some added)) {message : Message}
    (member : message ∈ state.history) : Precedes after message added := by
  intro ref registers
  have old := inv.known message member ref registers
  generalize posts : some added = sent at posting
  cases posting with
  | silent => cases posts
  | posted mover found move =>
      cases posts
      have carries := move.lookup
      refine ⟨fun other => ?_, ?_⟩
      · dsimp only at other
        rw [other] at carries
        cases carries
      · intro older sender before same
        cases sender
        rw [moves.tokenOf (link_lt found), moves.tokenOf old] at same
        exact inv.older _ ref before old same (.running found move.alive)
  | @registered ref' place =>
      cases posts
      refine ⟨fun same => ?_, by simp⟩
      cases same
      exact (inv.pending ref place).2 message member registers
  | announced =>
      cases posts
      exact ⟨by simp, by simp⟩

/-- A message that is looked up carries the token of the link that sent it. -/
theorem sent_of_move (inv : TokenInv state) (moves : LinksMove parse state after)
    {label : ServerLabel} {sent : Option Message} (posting : Posting parse state label after sent) :
    ∀ message ∈ state.history ++ sent.toList, message.body.lookup = none ∨
      ∃ ref, message.sender = some ref ∧ ref.index < after.created.length ∧
        message.body.lookup = some (after.tokenOf ref) := by
  have grows := moves.length_le
  intro message member
  rcases List.mem_append.mp member with member | added
  · refine (inv.sent message member).imp id ?_
    rintro ⟨ref, sender, old, carries⟩
    exact ⟨ref, sender, Nat.lt_of_lt_of_le old grows, by rw [moves.tokenOf old, carries]⟩
  · cases posting with
    | silent => cases added
    | posted mover found move =>
        obtain rfl := List.mem_singleton.mp added
        have old := link_lt found
        refine .inr ⟨_, rfl, Nat.lt_of_lt_of_le old grows, ?_⟩
        rw [moves.tokenOf old, link_token found]
        exact move.lookup
    | registered | announced =>
        obtain rfl := List.mem_singleton.mp added
        exact .inl rfl

/-- A message added that registers a link is the accept loop's. -/
theorem registers_of_posting {label : ServerLabel} {sent : Option Message}
    (posting : Posting parse state label after sent) {message : Message}
    (added : message ∈ sent.toList) {ref : LinkRef} (registers : message.body = .newLink ref) :
    state.accept = .registering ref ∧ after.accept = .accepting := by
  cases posting with
  | silent => cases added
  | posted mover found move =>
      obtain rfl := List.mem_singleton.mp added
      have carries := move.lookup
      dsimp only at registers
      rw [registers] at carries
      cases carries
  | registered place returns =>
      obtain rfl := List.mem_singleton.mp added
      cases registers
      exact ⟨place, returns⟩
  | announced =>
      obtain rfl := List.mem_singleton.mp added
      cases registers

theorem known_of_move (inv : TokenInv state) (moves : LinksMove parse state after)
    {label : ServerLabel} {sent : Option Message} (posting : Posting parse state label after sent) :
    ∀ message ∈ state.history ++ sent.toList, ∀ ref, message.body = .newLink ref →
      ref.index < after.created.length := by
  intro message member ref registers
  refine Nat.lt_of_lt_of_le ?_ moves.length_le
  rcases List.mem_append.mp member with member | added
  · exact inv.known message member ref registers
  · exact (inv.pending ref (registers_of_posting posting added registers).1).1

theorem pending_of_move (inv : TokenInv state) {label : ServerLabel}
    (move : ServerMove parse state label after) {sent : Option Message}
    (posting : Posting parse state label after sent) {ref : LinkRef}
    (place : after.accept = .registering ref) :
    ref.index < after.created.length ∧
      ∀ message ∈ state.history ++ sent.toList, message.body ≠ .newLink ref := by
  have unsent : ∀ message ∈ sent.toList, message.body ≠ .newLink ref := by
    intro message added registers
    have returned := (registers_of_posting posting added registers).2
    rw [place] at returned
    cases returned
  rcases registering_of_move move place with place | ⟨fresh, bound⟩
  · obtain ⟨bound, unregistered⟩ := inv.pending ref place
    refine ⟨Nat.lt_of_lt_of_le bound (linksMove_of_move move).length_le, fun message member => ?_⟩
    exact (List.mem_append.mp member).elim (unregistered message) (unsent message)
  · refine ⟨bound, fun message member registers => ?_⟩
    rcases List.mem_append.mp member with member | added
    · have old := inv.known message member ref registers
      omega
    · exact unsent message added registers

/-- New messages come behind those that must precede them. -/
theorem ordered_of_move (inv : TokenInv state) (moves : LinksMove parse state after)
    {label : ServerLabel} {sent : Option Message} (posting : Posting parse state label after sent) :
    (state.history ++ sent.toList).Pairwise (Precedes after) := by
  have kept : state.history.Pairwise (Precedes after) := by
    refine inv.ordered.imp_of_mem fun {message later} member _ precedes ref registers => ?_
    obtain ⟨other, younger⟩ := precedes ref registers
    have old := inv.known message member ref registers
    refine ⟨other, fun older sender before => ?_⟩
    rw [moves.tokenOf (Nat.lt_trans before old), moves.tokenOf old]
    exact younger older sender before
  refine List.pairwise_append.mpr ⟨kept, by cases sent <;> simp, fun message member added new => ?_⟩
  cases sent with
  | none => cases new
  | some posted =>
      obtain rfl := List.mem_singleton.mp new
      exact precedes_of_posting inv moves posting member

/-- The place of the forward loop after handling: it may be about to acknowledge under the same
token. -/
theorem HandleMove.acknowledging {tr : Transaction} (move : HandleMove state tr after)
    {token : Option Token} (pc : after.forward = .acknowledging token) :
    tr.lookup = some (token.getD ⟨0⟩) := by
  cases move with
  | went free still => exact absurd pc (still token)
  | sent looked _ _ _ _ acknowledges => rw [looked, acknowledges token pc]
  | inserted | removed => cases pc

/-- Every step keeps the forward loop in its place. -/
theorem applied_of_move {label : ServerLabel} (inv : TokenInv state)
    (move : ServerMove parse state label after) : ∃ earlier, Applied after earlier := by
  have moves := linksMove_of_move move
  obtain ⟨earlier, applied⟩ := inv.applied
  have listed : ∀ token ref, state.links token = some ref → after.tokenOf ref = token ∧
      ∃ message ∈ earlier, message.body = .newLink ref := by
    intro token ref there
    obtain ⟨named, message, member, registers⟩ := applied.listed token ref there
    have consumed : message ∈ state.consumed := by
      rw [applied.consumed]
      exact List.mem_append_left _ member
    have old := inv.known message (List.mem_append_left _ consumed) ref registers
    exact ⟨(moves.tokenOf old).trans named, message, member, registers⟩
  rcases turn_or_kept move with turn | kept
  · cases turn with
    | @received message channel pc items =>
        have consumed := applied.consumed
        rw [pc, current_receiving, List.append_nil] at consumed
        exact ⟨earlier, by rw [consumed]; rfl, listed, by simp⟩
    | @handled message _ pc handles =>
        have consumed := applied.consumed
        rw [pc, ForwardPc.current] at consumed
        refine ⟨earlier ++ [message], ?_, ?_, ?_⟩
        · rw [handles.frame.consumed, handles.free, List.append_nil, consumed]
        · intro token ref there
          rcases links_of_move move there with there | ⟨message', pc', registers, named⟩
          · obtain ⟨named, other, member, registers⟩ := listed token ref there
            exact ⟨named, other, List.mem_append_left _ member, registers⟩
          · obtain rfl : message = message' := by simpa using pc.symm.trans pc'
            have member : message ∈ state.history := by simp [ServerState.history, consumed]
            have old := inv.known message member ref registers
            exact ⟨(moves.tokenOf old).trans named, message, by simp, registers⟩
        · intro token pc'
          exact ⟨message, by simp, handles.acknowledging pc'⟩
    | @acknowledged token' _ pc sends =>
        have consumed := applied.consumed
        rw [pc, current_acknowledging, List.append_nil] at consumed
        refine ⟨earlier, ?_, ?_, ?_⟩
        · rw [sends.frame.consumed, sends.free, List.append_nil, consumed]
        · intro token ref there
          rcases links_of_move move there with there | ⟨message', pc', -⟩
          · exact listed token ref there
          · cases pc.symm.trans pc'
        · intro token pc'
          obtain ⟨message, last, looked⟩ := applied.acknowledging token' pc
          exact ⟨message, last, looked.trans (sends.acknowledging pc')⟩
    | @called tr last pc =>
        have consumed := applied.consumed
        rw [pc, current_calling, List.append_nil] at consumed
        refine ⟨earlier, ?_, listed, ?_⟩
        · cases last <;> simp [consumed, ForwardPc.current]
        · cases last <;> simp
  · refine ⟨earlier, ?_, ?_, ?_⟩
    · rw [kept.consumed, kept.forward, applied.consumed]
    · intro token ref there
      exact listed token ref (kept.links ▸ there)
    · intro token pc
      exact applied.acknowledging token (kept.forward ▸ pc)

/-- Every move keeps the links of one token apart. -/
theorem tokenInv_of_move {label : ServerLabel} (inv : TokenInv state)
    (move : ServerMove parse state label after) : TokenInv after := by
  have moves := linksMove_of_move move
  obtain ⟨sent, posting, history⟩ := posting_of_move move
  exact ⟨fun older ref before bound same => older_of_move inv move before bound same,
    history ▸ sent_of_move inv moves posting, history ▸ known_of_move inv moves posting,
    fun ref place => history ▸ pending_of_move inv move posting place,
    history ▸ ordered_of_move inv moves posting, applied_of_move inv move⟩

/-- In every run the links of one token are kept apart. -/
theorem tokenInv_of_run {trace : List (ServerState × ServerLabel)}
    (run : (serverMachine parse).Run .start trace state) : TokenInv state :=
  have free : Machine.Guarded (fun _ _ => True) trace := fun _ _ => trivial
  run.invariant free tokenInv_start fun inv _ taken => tokenInv_of_move inv (step_move taken)

theorem link_cases (first second : LinkRef) :
    first = second ∨ first.index < second.index ∨ second.index < first.index := by
  rcases Nat.lt_trichotomy first.index second.index with before | same | behind
  · exact .inr (.inl before)
  · exact .inl (congrArg LinkRef.mk same)
  · exact .inr (.inr behind)

/-- What was consumed before a message was also put on the channel before it. -/
theorem consumed_before (inv : TokenInv state) {earlier : List Message} {message before : Message}
    (consumed : state.consumed = earlier ++ [message]) (member : before ∈ earlier) :
    Precedes state before message := by
  have ordered := inv.ordered
  simp only [ServerState.history, consumed, List.append_assoc, List.singleton_append] at ordered
  exact (List.pairwise_append.mp ordered).2.2 before member message List.mem_cons_self

/-- An entry that was registered before the message was consumed is the sender's. -/
theorem reaches_sender (inv : TokenInv state) {earlier : List Message} {message : Message}
    {token : Token} (consumed : state.consumed = earlier ++ [message])
    (looked : message.body.lookup = some token)
    (listed : ∀ ref, state.links token = some ref →
      ∃ registration ∈ earlier, registration.body = .newLink ref) :
    ∃ ref, message.sender = some ref ∧ state.tokenOf ref = token ∧
      (state.links token = none ∨ state.links token = some ref) := by
  have member : message ∈ state.history := by simp [ServerState.history, consumed]
  rcases inv.sent message member with silent | ⟨ref, sender, old, carries⟩
  · cases silent.symm.trans looked
  · have named : state.tokenOf ref = token := Option.some.inj (carries.symm.trans looked)
    refine ⟨ref, sender, named, ?_⟩
    cases there : state.links token with
    | none => exact .inl rfl
    | some other =>
        have same : state.tokenOf other = token := inv.listed token other there
        obtain ⟨registration, before, registers⟩ := listed other there
        rcases link_cases ref other with rfl | younger | older
        · exact .inr rfl
        · have precedes := consumed_before inv consumed before
          exact absurd (named.trans same.symm) ((precedes other registers).2 ref sender younger)
        · exact absurd (.table (by rw [same, there])) (inv.older other ref older old
            (same.trans named.symm))

/-- A registration finds its token free. -/
theorem registers_free (inv : TokenInv state) {earlier : List Message} {message : Message}
    {ref : LinkRef} (applied : Applied state earlier) (pc : state.forward = .handling message)
    (registers : message.body = .newLink ref) : state.links (state.tokenOf ref) = none := by
  have consumed := applied.consumed
  rw [pc, ForwardPc.current] at consumed
  have member : message ∈ state.history := by simp [ServerState.history, consumed]
  cases there : state.links (state.tokenOf ref) with
  | none => rfl
  | some other =>
      obtain ⟨same, registration, before, registers'⟩ := applied.listed _ other there
      have member' : registration ∈ state.history := by simp [ServerState.history, consumed, before]
      rcases link_cases other ref with rfl | older | younger
      · have precedes := consumed_before inv consumed before
        exact absurd registers (precedes other registers').1
      · exact absurd (.table (by rw [same, there]))
          (inv.older other ref older (inv.known message member ref registers) same)
      · exact absurd (.handling pc registers)
          (inv.older ref other younger (inv.known registration member' other registers') same.symm)

/-- Handling a transaction changes the queue of the link that it finds, and the entry that it removes
or finds free. -/
theorem HandleMove.spares {tr : Transaction} (move : HandleMove state tr after)
    {sender : Option LinkRef} {ref : LinkRef}
    (own : ∀ token ∈ tr.lookup, state.links token = some ref → sender = some ref)
    (free : ∀ own, tr = .newLink own → state.links (state.tokenOf own) = none)
    (other : sender ≠ some ref) :
    after.link ref = state.link ref ∧
      ∀ token, state.links token = some ref → after.links token = some ref := by
  cases move with
  | went => exact ⟨rfl, fun _ => id⟩
  | @sent token target link next pc looked listed found =>
      have apart : ref ≠ target := fun same => other (own token looked (same ▸ listed))
      exact ⟨(link_set (link_lt found)).trans (if_neg apart), fun _ => id⟩
  | @inserted target registers =>
      refine ⟨rfl, fun token listed => (if_neg fun same => ?_).trans listed⟩
      rw [same, free target registers] at listed
      cases listed
  | @removed token detaches =>
      refine ⟨rfl, fun entry listed => (if_neg fun same => ?_).trans listed⟩
      exact other (own token (by rw [detaches]; rfl) (same ▸ listed))

/-- In every run a message is applied to the link that sent it or to none, a registration replaces
nothing, and the step that applies it leaves every other link alone. -/
theorem noCrossTalk {trace : List (ServerState × ServerLabel)}
    (run : (serverMachine parse).Run .start trace state) : NoCrossTalk state := by
  have inv := tokenInv_of_run run
  obtain ⟨earlier, applied⟩ := inv.applied
  have current : ∀ message, state.forward = .handling message →
      state.consumed.getLast? = some message := fun message pc => by
    rw [applied.consumed, pc, ForwardPc.current, List.getLast?_concat]
  have finds : ∀ token ∈ state.forward.lookup, ∃ message ref,
      state.consumed.getLast? = some message ∧ message.sender = some ref ∧
        state.tokenOf ref = token ∧
        (state.links token = none ∨ state.links token = some ref) := fun token looked => by
    cases pc : state.forward with
    | handling message =>
        rw [pc] at looked
        have consumed := applied.consumed
        rw [pc, ForwardPc.current] at consumed
        obtain ⟨ref, found⟩ := reaches_sender inv consumed
          (by simpa [ForwardPc.lookup] using looked)
          fun ref there => (applied.listed token ref there).2
        exact ⟨message, ref, by rw [consumed, List.getLast?_concat], found⟩
    | acknowledging token' =>
        rw [pc] at looked
        obtain rfl : token'.getD ⟨0⟩ = token := by simpa [ForwardPc.lookup] using looked
        have consumed := applied.consumed
        rw [pc, current_acknowledging, List.append_nil] at consumed
        obtain ⟨message, last, looked⟩ := applied.acknowledging token' pc
        obtain ⟨init, rfl⟩ := List.getLast?_eq_some_iff.mp last
        obtain ⟨ref, found⟩ := reaches_sender inv consumed looked fun ref there => by
          obtain ⟨-, registration, member, registers⟩ := applied.listed _ ref there
          rcases List.mem_append.mp member with before | final
          · exact ⟨registration, before, registers⟩
          · obtain rfl := List.mem_singleton.mp final
            rw [registers] at looked
            cases looked
        exact ⟨message, ref, by rw [consumed, List.getLast?_concat], found⟩
    | _ => rw [pc] at looked; cases looked
  have own : ∀ ref, ∀ token ∈ state.forward.lookup, state.links token = some ref →
      state.consumed.getLast?.bind Message.sender = some ref := fun ref token looked listed => by
    obtain ⟨message, sender, last, sent, -, none | found⟩ := finds token looked
    · rw [none] at listed
      cases listed
    · rw [last, Option.bind_some, sent, ← found, listed]
  refine ⟨current, finds, fun message ref => registers_free inv applied, ?_⟩
  intro after ref steps other
  cases forward_turn (@forward_move parse state after steps) with
  | received | called => exact ⟨rfl, fun _ => id⟩
  | handled pc move =>
      refine move.spares (fun token looked => own ref token ?_)
        (fun target registers => registers_free inv applied pc registers) other
      rw [pc]
      exact looked
  | acknowledged pc move =>
      refine move.spares (fun token looked => own ref token ?_) (by simp) other
      rw [pc]
      exact looked

/-- A link closes and is detached, and the next connection takes its token and sends SETTINGS. -/
def tokenReused : List ServerLabel :=
  closedAfter ++ List.replicate 5 (.write ⟨0⟩ true) ++ [.forward, .forward, .forward,
    .connect ⟨7⟩ settingsPeer, .register, .forward, .forward, .forward, .read ⟨1⟩, .read ⟨1⟩,
    .read ⟨1⟩, .forward]

/-- The forward loop is about to echo the SETTINGS frame of the second link, which has the token of
the first. -/
def ServerState.secondLooked (state : ServerState) : Bool :=
  state.created.length == 2 && state.created.all (fun link => link.token == ⟨7⟩) &&
    state.forward.lookup == some ⟨7⟩ &&
    (state.consumed.getLast?.any fun message => message.sender == some ⟨1⟩)

/-- Two links have token 7 one after the other, and the second is looked up. -/
theorem tokenReused_noCrossTalk :
    ∃ state trace, (serverMachine fun _ => .incomplete).Run .start trace state ∧
      state.secondLooked ∧ NoCrossTalk state := by
  obtain ⟨state, run, looked⟩ := @Machine.run_of_exec_any _ _ (serverMachine fun _ => .incomplete)
    .start tokenReused ServerState.secondLooked (by decide)
  exact ⟨state, _, run, looked, noCrossTalk run⟩

end H2l
