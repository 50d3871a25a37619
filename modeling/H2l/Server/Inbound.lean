import H2l.Server.Answers
import H2l.Server.Reports
import H2l.Wire.Greeting
import Mathlib.Data.List.Infix

/-!
# A client of the library at the other end

Every frame that a read loop delivers goes through the shared channel once and in order.
Where the peer of a link is a client of this library, the closure is handed what the
client's frames are at the server (`content_relayed`), and the client is greeted with the
settings that it offered (`client_greeted`).
-/

namespace H2l

open Base

/-- The frames that a server answers a frame with. -/
def Frame.answers : Frame → List Frame
  | settings asked =>
      if asked.isAck then [] else [settings asked, settings Settings.ack]
  | _ => []

open H2l.Frame

/-- The frames that the read loop of a link has yet to put on the shared channel. -/
def ServerState.unread (parse : HttpParser) (state : ServerState) (ref : LinkRef) : List Frame :=
  ((state.link ref).map (LinkState.unread parse)).getD []

variable {parse : HttpParser} {state after : ServerState} {trace : List (ServerState × ServerLabel)}

/-- What is unread of a link is what its state says. -/
theorem unread_of_link {ref : LinkRef} {link : LinkState} (found : state.link ref = some link) :
    state.unread parse ref = link.unread parse := by
  simp [ServerState.unread, found]

/-- Where the links are the same, so is what is unread of them. -/
theorem unread_congr (created : after.created = state.created) (ref : LinkRef) :
    after.unread parse ref = state.unread parse ref := by
  simp only [ServerState.unread, ServerState.link, created]

/-- A step of one link leaves what is unread of the others. -/
theorem unread_set {ref other : LinkRef} {link next : LinkState}
    (found : state.link ref = some link) :
    ServerState.unread parse { state with created := state.created.set ref.index next } other =
      if other = ref then next.unread parse else state.unread parse other := by
  have there : ServerState.link { state with created := state.created.set ref.index next } other =
      if other = ref then some next else state.link other := link_set (link_lt found)
  rw [ServerState.unread, there, ServerState.unread]
  split <;> rfl

/-- A send to a link reads nothing. -/
theorem unread_pushed (send : Option (LinkRef × Transaction)) (ref : LinkRef) :
    ServerState.unread parse { state with created := state.pushed send } ref =
      state.unread parse ref := by
  cases send with
  | none => rfl
  | some send =>
      obtain ⟨target, tr⟩ := send
      simp only [ServerState.pushed, ServerState.push]
      cases found : state.link target with
      | none => rfl
      | some link =>
          cases sends : link.send tr with
          | error error => simp only [sends]
          | ok next =>
              obtain ⟨alive, outgoing, queued, rfl⟩ := send_ok sends
              simp only [sends]
              refine (unread_set found).trans ?_
              by_cases own : ref = target
              · rw [if_pos own, own, unread_of_link found]
                rfl
              · rw [if_neg own]

/-- One more step adds the connection that it accepts. -/
theorem connections_snoc (trace : List (ServerState × ServerLabel))
    (step : ServerState × ServerLabel) :
    connections (trace ++ [step]) = connections trace ++ (connectionOf step).toList := by
  rw [connections, List.filterMap_append, connections]
  cases connects : connectionOf step <;> simp [connects]

/-- A step of a link's loop puts the front of what is unread on the shared channel. -/
theorem frames_of_loop {ref : LinkRef} {label : ServerLabel} {mover : LinkRef}
    (loops : label.loopOf = some mover)
    (taken : (serverMachine parse).step state label = some after) :
    framesOf ref after.history ++ after.unread parse ref =
      framesOf ref state.history ++ state.unread parse ref := by
  have moved : ∀ {link next : LinkState} {sent : Option Transaction} {channel},
      state.link mover = some link →
      link.unread parse = (sent.bind Transaction.carried).toList ++ next.unread parse →
      channel.items =
        state.channel.items ++ (sent.map fun body => (⟨body, some mover⟩ : Message)).toList →
      after = { state with created := state.created.set mover.index next, channel } →
      framesOf ref after.history ++ after.unread parse ref =
        framesOf ref state.history ++ state.unread parse ref := by
    rintro link next sent channel found unread items rfl
    have there : ServerState.unread parse
        { state with created := state.created.set mover.index next, channel } ref =
          if ref = mover then next.unread parse else state.unread parse ref := unread_set found
    rw [there]
    simp only [ServerState.history, items, ← List.append_assoc, framesOf_append _ (_ ++ _)]
    by_cases same : ref = mover
    · subst same
      rw [framesOf_own, if_pos rfl, unread_of_link found, unread, List.append_assoc]
    · rw [framesOf_other same, if_neg same, List.append_nil]
  cases loop_turn loops taken with
  | read found turn items =>
      cases loops
      exact moved found turn.unread items rfl
  | wrote found turn items =>
      cases loops
      exact moved found (turn.unread parse) items rfl

/-- Every other step leaves what a link has sent and what it has yet to send, unless it accepts the
link. -/
theorem frames_of_other {label : ServerLabel} (idle : label.loopOf = none)
    (joins : ∀ token stream, label ≠ .connect token stream)
    (taken : (serverMachine parse).step state label = some after) (ref : LinkRef) :
    framesOf ref after.history ++ after.unread parse ref =
      framesOf ref state.history ++ state.unread parse ref := by
  obtain ⟨sent, posting, history⟩ := posting_of_move (step_move taken)
  have silent : framesOf ref sent.toList = [] := by
    cases posting with
    | silent => rfl
    | posted mover => cases idle.symm.trans mover
    | registered | announced => exact framesOf_silent ref _
  have created : after.unread parse ref =
      ServerState.unread parse { state with created := state.pushed (state.sends label) } ref :=
    unread_congr (pushed_of_step idle joins taken) ref
  rw [history, framesOf_append, silent, List.append_nil, created, unread_pushed]

/-- A link comes with what its connection brings. -/
theorem frames_of_connect {token : Token} {stream : TcpStream}
    (run : (serverMachine parse).Run .start trace state)
    (taken : (serverMachine parse).step state (.connect token stream) = some after) {ref : LinkRef}
    (ih : framesOf ref state.history ++ state.unread parse ref = brought parse trace ref) :
    framesOf ref after.history ++ after.unread parse ref =
      brought parse (trace ++ [(state, .connect token stream)]) ref := by
  have lengths := connections_length run
  simp only [serverMachine, ServerState.step, ServerState.acceptStep, ServerState.userStep,
    Option.or_none] at taken
  split at taken <;> cases taken
  have history : ∀ accept, ServerState.history { state with
      created := state.created ++ [.new token stream], accept } = state.history := fun _ => rfl
  rw [history, brought, connections_snoc]
  simp only [ServerState.unread, ServerState.link, connectionOf, Option.toList_some]
  rcases Nat.lt_trichotomy ref.index state.created.length with old | fresh | absent
  · rw [List.getElem?_append_left old, List.getElem?_append_left (by omega)]
    exact ih
  · have empty : framesOf ref state.history = [] := by
      rw [brought, List.getElem?_eq_none (by omega)] at ih
      exact (List.append_eq_nil_iff.mp ih).1
    rw [empty, fresh, List.getElem?_concat_length, ← lengths, List.getElem?_concat_length]
    rfl
  · rw [brought, List.getElem?_eq_none (by omega)] at ih
    rw [List.getElem?_eq_none (by simp; omega), List.getElem?_eq_none (by simp; omega),
      (List.append_eq_nil_iff.mp ih).1]
    rfl

/-- A step that accepts nobody changes no connection. -/
theorem brought_of_other {step : ServerState × ServerLabel} (silent : connectionOf step = none)
    (ref : LinkRef) : brought parse (trace ++ [step]) ref = brought parse trace ref := by
  rw [brought, connections_snoc, silent, Option.toList_none, List.append_nil, brought]

/-- What the loops of a link have sent and what its read loop has yet to send is what the connection
brings. -/
theorem frames_of_run (run : (serverMachine parse).Run .start trace state) (ref : LinkRef) :
    framesOf ref state.history ++ state.unread parse ref = brought parse trace ref := by
  induction run with
  | nil => rfl
  | @snoc trace before label after prior taken ih =>
      cases label with
      | read mover | write mover written =>
          rw [frames_of_loop rfl taken, ih]
          exact (brought_of_other rfl ref).symm
      | connect token stream => exact frames_of_connect prior taken ih
      | _ =>
          rw [frames_of_other rfl (by simp) taken, ih]
          exact (brought_of_other rfl ref).symm

/-- Of the frames of a client of this library, the images of its DATA and HEADERS frames are handed
over: in order and at most once, and all of them in the end. -/
theorem content_relayed (run : (serverMachine parse).Run .start trace state) {ref : LinkRef}
    {token : Token} {stream : TcpStream}
    (accepted : (connections trace)[ref.index]? = some (token, stream)) (frames : List Frame)
    (writable : ∀ frame ∈ frames, frame.Writable)
    (front : stream.input.content <+: Consts.clientOpening ++ frames.flatMap writeTo) :
    ContentHanded trace state ref (openingImages stream.input.content.length frames) := by
  have opened := opening_delivered parse token frames writable stream front
  have handed := handed_of_run run ref
  rwa [brought, accepted, Option.map_some, Option.getD_some, opened.delivered] at handed

/-- The answers to the messages of a link are those to its frames. -/
theorem answers_emitted (ref : LinkRef) (messages : List Message) :
    (messages.flatMap (Message.answers ref)).flatMap Transaction.emitted =
      ((framesOf ref messages).flatMap answers).flatMap writeTo := by
  have one : ∀ message : Message, (message.answers ref).flatMap Transaction.emitted =
      ((framesOf ref [message]).flatMap answers).flatMap writeTo := by
    rintro ⟨body, sender⟩
    cases body with
    | frame carried token =>
        cases carried with
        | settings asked =>
            by_cases own : sender = some ref <;> cases ack : asked.isAck <;>
              simp [Message.answers, framesOf, Transaction.carried, answers, own, ack,
                Transaction.emitted]
        | _ => by_cases own : sender = some ref <;>
            simp [Message.answers, framesOf, Transaction.carried, answers, own]
    | _ => simp [Message.answers, framesOf, Transaction.carried]
  induction messages with
  | nil => rfl
  | cons message messages ih =>
      have split : framesOf ref (message :: messages) =
          framesOf ref [message] ++ framesOf ref messages := framesOf_append ref [message] messages
      rw [List.flatMap_cons, List.flatMap_append, ih, one, split, List.flatMap_append,
        List.flatMap_append]

/-- The forward loop sends frames and flags. -/
theorem emitted_of_noticing {token : Token} {tr : Transaction}
    (noticing : state.noticing = some (token, tr)) (silent : tr.carried = none) :
    tr.emitted = [] := by
  unfold ServerState.noticing at noticing
  split at noticing
  next message pc =>
    obtain ⟨body, sender⟩ := message
    cases body with
    | frame carried source =>
        cases carried with
        | settings asked =>
            simp only [Transaction.notice] at noticing
            split at noticing <;> cases noticing
            cases silent
        | _ => cases noticing
    | linkChanged flags source =>
        simp only [Transaction.notice] at noticing
        split at noticing <;> cases noticing
        rfl
    | _ => cases noticing
  next source pc =>
    cases noticing
    cases silent
  next => cases noticing

/-- Nothing but the answers is written of what the forward loop sends. -/
theorem acceptedBy_emitted (state : ServerState) (ref : LinkRef) :
    (acceptedBy ref (state, .forward)).flatMap Transaction.emitted =
      (answeredBy ref (state, .forward)).flatMap Transaction.emitted := by
  rw [answeredBy, acceptedBy_forward]
  cases noticing : state.noticing with
  | none => rfl
  | some notice =>
      obtain ⟨token, tr⟩ := notice
      by_cases takes : state.links token = some ref ∧ state.takes ref tr
      · cases carries : tr.carried with
        | some carried => simp [takes, carries]
        | none => simp [takes, carries, emitted_of_noticing noticing carries]
      · simp [takes]

/-- What a link accepts from user code. -/
def userSends (ref : LinkRef) : ServerState × ServerLabel → List Transaction
  | (_, .forward) => []
  | step => acceptedBy ref step

/-- User code sends nothing to a link. -/
def Unsent (trace : List (ServerState × ServerLabel)) (ref : LinkRef) : Prop :=
  ∀ step ∈ trace, userSends ref step = []

instance (trace : List (ServerState × ServerLabel)) (ref : LinkRef) :
    Decidable (Unsent trace ref) :=
  inferInstanceAs (Decidable (∀ step ∈ trace, _))

/-- What a link accepts outside the forward loop comes from user code. -/
theorem userSends_of_ne {label : ServerLabel} (other : label ≠ .forward) (ref : LinkRef) :
    userSends ref (state, label) = acceptedBy ref (state, label) := by
  cases label with
  | forward => exact absurd rfl other
  | _ => rfl

/-- A link that user code leaves alone is sent the answers only. -/
theorem accepted_of_unsent {ref : LinkRef} (unsent : Unsent trace ref) :
    (trace.flatMap (acceptedBy ref)).flatMap Transaction.emitted =
      (trace.flatMap (answeredBy ref)).flatMap Transaction.emitted := by
  rw [List.flatMap_assoc, List.flatMap_assoc]
  refine List.flatMap_congr fun step member => ?_
  obtain ⟨state, label⟩ := step
  by_cases forward : label = .forward
  · subst forward
    exact acceptedBy_emitted state ref
  · have silent : answeredBy ref (state, label) = [] := by
      cases label <;> first | rfl | exact absurd rfl forward
    rw [silent, ← userSends_of_ne forward, unsent _ member]

/-- What the forward loop received of a link is the front of what its connection brings. -/
theorem consumed_front (run : (serverMachine parse).Run .start trace state) (ref : LinkRef) :
    framesOf ref state.consumed <+: brought parse trace ref := by
  rw [← frames_of_run run, ServerState.history, framesOf_append, List.append_assoc]
  exact List.prefix_append _ _

/-- What is written to a link that user code sends nothing to is the front of the answers to what
its connection brings. -/
theorem handed_answers (run : (serverMachine parse).Run .start trace state) {ref : LinkRef}
    (unsent : Unsent trace ref) :
    trace.flatMap (handedBy ref) <+:
      ((brought parse trace ref).flatMap answers).flatMap writeTo := by
  have handed := handed_front run ref
  rw [accepted_of_unsent unsent] at handed
  have answered := (answered_front run ref).flatMap Transaction.emitted
  rw [answers_emitted] at answered
  exact (handed.trans answered).trans (((consumed_front run ref).flatMap answers).flatMap writeTo)

/-- An acknowledgement can be written. -/
theorem ack_writable : (Frame.settings Settings.ack).Writable :=
  ⟨by rintro head ⟨⟩; decide, by decide, .inl rfl⟩

/-- SETTINGS are delivered as they were written. -/
theorem settings_of_images {count : Nat} {frames : List Frame} {asked : Settings}
    (among : .settings asked ∈ imagesWithin .server count frames) :
    .settings asked ∈ frames := by
  obtain ⟨frame, whole, delivers⟩ := List.mem_filterMap.mp among
  have written := (List.takeWhile_prefix _).subset ((wholeFrames_front _ _).subset whole)
  cases frame with
  | settings offered =>
      cases delivers
      exact written
  | _ => cases delivers

/-- Answers to what was written may be written. -/
theorem answers_writable {count : Nat} {frames : List Frame}
    (writable : ∀ frame ∈ frames, frame.Writable) :
    ∀ frame ∈ (imagesWithin .server count frames).flatMap answers, frame.Writable := by
  intro frame member
  obtain ⟨relayed, among, answer⟩ := List.mem_flatMap.mp member
  cases relayed with
  | settings asked =>
      by_cases ack : asked.isAck
      · rw [answers, if_pos ack] at answer
        cases answer
      · rw [answers, if_neg ack] at answer
        simp only [List.mem_cons, List.not_mem_nil, or_false] at answer
        rcases answer with rfl | rfl
        · exact writable _ (settings_of_images among)
        · exact ack_writable
  | _ => cases answer

/-- A client of this library whose opening reaches the server, and to which user code sends nothing,
takes back the settings that it offered, reads their acknowledgement first and then the answers to
its other settings. -/
theorem client_greeted (run : (serverMachine parse).Run .start trace state) {ref : LinkRef}
    {token : Token} {stream : TcpStream}
    (accepted : (connections trace)[ref.index]? = some (token, stream)) (frames : List Frame)
    (writable : ∀ frame ∈ frames, frame.Writable)
    (front : stream.input.content <+: Consts.clientOpening ++ frames.flatMap writeTo)
    (unsent : Unsent trace ref) (back : TcpStream) (opened : 2 ≤ back.writable)
    (answered : back.input.content <+: trace.flatMap (handedBy ref)) :
    SettingsGreeted Settings.offered (.settings Settings.ack ::
      (imagesWithin .server (stream.input.content.length - 51) frames).flatMap answers) back := by
  refine settings_greeted _ _ offered_writable ?_ back opened (answered.trans ?_)
  · intro frame member
    rcases List.mem_cons.mp member with rfl | rest
    · exact ack_writable
    · exact answers_writable writable frame rest
  · refine (handed_answers run unsent).trans ?_
    rw [brought, accepted, Option.map_some, Option.getD_some,
      (opening_delivered parse token frames writable stream front).delivered, openingImages]
    split
    · exact List.prefix_rfl
    · exact List.nil_prefix

/-- A client opens, is answered, and sends a DATA frame that the closure is handed. -/
def openedThenData : List ServerLabel :=
  [.bind true, .connect ⟨7⟩ openedGreeting, .register, .forward, .forward, .forward, .read ⟨0⟩,
    .read ⟨0⟩, .read ⟨0⟩, .forward, .forward, .forward, .read ⟨0⟩, .read ⟨0⟩, .read ⟨0⟩, .read ⟨0⟩,
    .forward, .forward, .forward, .forward, .forward, .write ⟨0⟩ true, .write ⟨0⟩ true,
    .write ⟨0⟩ true, .write ⟨0⟩ true]

/-- The trace of `openedThenData`. -/
def openedTrace : List (ServerState × ServerLabel) :=
  (serverMachine fun _ => .incomplete).traceOf .start openedThenData

/-- A client sends one request, and the application is handed it. -/
theorem openedTrace_relayed :
    ∃ state, (serverMachine fun _ => .incomplete).Run .start openedTrace state ∧
      (contentOf ⟨0⟩ (callbackLog openedTrace)).length = 1 ∧
      ContentHanded openedTrace state ⟨0⟩
        (openingImages openedGreeting.input.content.length greeting) := by
  obtain ⟨state, run, -⟩ := @Machine.run_of_exec_any _ _ (serverMachine fun _ => .incomplete)
    .start openedThenData (fun _ => true) (by decide)
  exact ⟨state, run, by decide,
    content_relayed run rfl greeting greeting_writable openedGreeting_front⟩

/-- The client's end of the connection: what the server writes to it. -/
def openedBack : TcpStream :=
  ⟨Source.ofContent (openedTrace.flatMap (handedBy ⟨0⟩)) none, 2, []⟩

/-- The client at the other end reads its own settings and their acknowledgement. -/
theorem openedBack_greeted :
    (Client.handshake openedBack).1 = .ok Settings.offered ∧
      Loop.values (Client.frameLoop (Client.handshake openedBack).2.input) =
        [.settings Settings.ack] := by
  obtain ⟨state, run, -⟩ := @Machine.run_of_exec_any _ _ (serverMachine fun _ => .incomplete)
    .start openedThenData (fun _ => true) (by decide)
  have unsent : Unsent openedTrace ⟨0⟩ := by decide
  have greeted := client_greeted run rfl greeting greeting_writable openedGreeting_front
    unsent openedBack (by decide) (by
      rw [openedBack, Source.content_ofContent]
      exact List.prefix_rfl)
  obtain ⟨shaken, read⟩ := greeted.shaken (by decide)
  have values : Loop.values (Client.frameLoop (Client.handshake openedBack).2.input) = _ :=
    read.values
  refine ⟨shaken, ?_⟩
  rw [values]
  decide

end H2l
