import H2l.Client.Outgoing
import H2l.Client.Transcript
import H2l.Server.Inbound

/-!
# A client and a server

A run of a client and a run of a server, where a connection of the one is a link of the
other: each end reads a front of what the other has written. User code at either end sends
frames. `exchanged` says what the closures at both ends are called with.
-/

namespace H2l

open Base H2l.Frame

/-- What a transaction puts on the wire is a writable frame, or nothing. -/
def Transaction.Plain : Transaction → Prop
  | .bytes raw _ => raw = []
  | .frame sent _ => sent.Writable
  | _ => True

/-- The frames that transactions put on the wire. -/
def written (trs : List Transaction) : List Frame := trs.filterMap Transaction.carried

/-- What plain transactions write are the frames they carry. -/
theorem written_of_plain {trs : List Transaction} (plain : ∀ tr ∈ trs, tr.Plain) :
    trs.flatMap Transaction.emitted = (written trs).flatMap writeTo ∧
      ∀ frame ∈ written trs, frame.Writable := by
  induction trs with
  | nil => exact ⟨rfl, fun _ member => absurd member List.not_mem_nil⟩
  | cons tr rest ih =>
      obtain ⟨bytes, writable⟩ := ih fun tr member => plain tr (List.mem_cons_of_mem _ member)
      have first := plain tr List.mem_cons_self
      rw [List.flatMap_cons, bytes]
      cases tr with
      | bytes raw token =>
          obtain rfl : raw = [] := first
          exact ⟨rfl, writable⟩
      | frame sent token =>
          exact ⟨rfl, List.forall_mem_cons.mpr ⟨first, writable⟩⟩
      | _ => exact ⟨rfl, writable⟩

/-- What carries no frame and puts nothing on the wire. -/
theorem plain_of_silent {tr : Transaction} (silent : tr.carried = none)
    (nothing : tr.emitted = []) : tr.Plain := by
  cases tr with
  | bytes raw token => exact nothing
  | frame sent token => cases silent
  | _ => trivial

/-- What completes in a step: the stream that a client was given, and the handshake over it. -/
def ClientLabel.dials : ClientLabel → Option (TcpStream × Handshake)
  | connect (.connected token stream) =>
      (connect (.connected token stream)).handshake.map fun handshake => (stream, handshake)
  | _ => none

/-- The streams over which a client's handshakes completed, with the handshakes, oldest first. -/
def dialled (trace : List (ClientState × ClientLabel)) : List (TcpStream × Handshake) :=
  trace.filterMap fun taken => taken.2.dials

/-- What user code of a client sends. -/
def clientSends (trace : List (ClientState × ClientLabel)) : List Transaction :=
  trace.filterMap fun taken => match taken.2 with
    | .trySend tr => some tr
    | _ => none

theorem handshakes_dialled (trace : List (ClientState × ClientLabel)) :
    handshakes trace = (dialled trace).map Prod.snd := by
  rw [handshakes, dialled, List.map_filterMap]
  refine List.filterMap_congr fun taken _ => ?_
  generalize taken.2 = label
  cases label with
  | connect outcome =>
      cases outcome with
      | connected token stream =>
          rw [ClientLabel.dials, Option.map_map]
          exact Option.map_id_fun'.symm ▸ rfl
      | _ => rfl
  | _ => rfl

theorem readExact_sent {count : Nat} {stream after : TcpStream}
    {result : Except IoError (List Byte)} (reads : stream.readExact count = (result, after)) :
    after.sent = stream.sent :=
  congrArg (fun outcome => outcome.2.sent) reads.symm

/-- Reading the first frame of the server writes nothing. -/
theorem readServerSettings_sent (stream : TcpStream) :
    (Client.readServerSettings stream).2.sent = stream.sent := by
  unfold Client.readServerSettings
  split
  next reads => exact readExact_sent reads
  next reads =>
    have kept := readExact_sent reads
    simp only
    split
    · split
      · exact kept
      · split
        next body => exact (readExact_sent body).trans kept
        next body =>
          have kept := (readExact_sent body).trans kept
          split <;> exact kept
    · exact kept

/-- A handshake that completes has written the opening and read settings. -/
theorem handshake_completes {stream after : TcpStream} {settings : Settings}
    (shaken : Client.handshake stream = (.ok settings, after)) :
    after.sent = stream.sent ++ Consts.clientOpening ∧
      ∃ greeted : TcpStream, greeted.input = stream.input ∧
        Client.readServerSettings greeted = (.ok settings, after) := by
  rw [handshake_opens (writable_of_shaken shaken)] at shaken
  generalize greets : (⟨stream.input, stream.writable - 2,
    stream.sent ++ Consts.clientOpening⟩ : TcpStream) = greeted at shaken
  have sent := readServerSettings_sent greeted
  rw [shaken, ← greets] at sent
  exact ⟨sent, greeted, by rw [← greets], shaken⟩

/-- Only SETTINGS frames are written with their kind. -/
theorem settings_of_kind {frame : Frame} {head : Head} (heads : frame.head = some head)
    (kind : (wireHead head).kind = .settings) : ∃ asked, frame = .settings asked := by
  cases frame with
  | settings asked => exact ⟨asked, rfl⟩
  | unknown => cases heads
  | _ =>
      cases heads
      cases kind

/-- A handshake of a dialled stream read settings from it. -/
theorem session_of_dialled {clientTrace : List (ClientState × ClientLabel)} {back : TcpStream}
    {handshake : Handshake} {index : Nat}
    (found : (dialled clientTrace)[index]? = some (back, handshake)) :
    ∃ after, Client.handshake back = (.ok handshake.session.settings, after) ∧
      handshake.session.input = after.input := by
  obtain ⟨taken, -, dials⟩ := List.mem_filterMap.mp (List.mem_of_getElem? found)
  generalize taken.2 = label at dials
  unfold ClientLabel.dials at dials
  split at dials
  next token stream =>
    obtain ⟨other, shakes, same⟩ := Option.map_eq_some_iff.mp dials
    cases same
    simp only [ClientLabel.handshake] at shakes
    split at shakes
    next settings after shaken =>
      cases shakes
      exact ⟨after, shaken, rfl⟩
    next => cases shakes
  next => cases dials

/-- Written bytes that hold a header begin with a frame. -/
theorem first_of_written {frames : List Frame} (writable : ∀ frame ∈ frames, frame.Writable)
    {bytes : List Byte} (front : bytes <+: frames.flatMap writeTo) (enough : 9 ≤ bytes.length) :
    ∃ frame rest head, frame.head = some head ∧ frame.Writable ∧
      (∀ other ∈ rest, other.Writable) ∧ bytes <+: frame.writeTo ++ rest.flatMap writeTo ∧
        imagesWithin .client bytes.length frames =
          imagesWithin .client bytes.length (frame :: rest) := by
  induction frames with
  | nil =>
      rw [List.prefix_nil.mp front] at enough
      exact absurd enough (by simp)
  | cons frame rest ih =>
      have others : ∀ other ∈ rest, other.Writable :=
        fun other member => writable other (List.mem_cons_of_mem _ member)
      rw [List.flatMap_cons] at front
      cases heads : frame.head with
      | none =>
          obtain rfl := eq_unknown_of_head heads
          rw [imagesWithin_unknown]
          exact ih others front
      | some head =>
          exact ⟨frame, rest, head, heads, writable frame List.mem_cons_self, others, front, rfl⟩

/-- A client whose peer writes frames completes its handshake with the first and reads the
others. -/
theorem read_of_written {frames : List Frame} (writable : ∀ frame ∈ frames, frame.Writable)
    {stream after : TcpStream} {settings : Settings}
    (front : stream.input.content <+: frames.flatMap writeTo)
    (reads : Client.readServerSettings stream = (.ok settings, after)) :
    .settings settings :: Loop.values (Client.frameLoop after.input) =
      imagesWithin .client stream.input.content.length frames := by
  have completes : Handshakes stream.input.content := by
    cases firstFrame_cases stream with
    | accepted _ _ _ completes => exact completes
    | refused _ _ fails | panicked _ _ fails => cases reads.symm.trans fails
  have enough : 9 ≤ stream.input.content.length := by
    have whole := completes.1
    omega
  obtain ⟨frame, rest, head, heads, first, others, front, same⟩ :=
    first_of_written writable front enough
  obtain ⟨atHead, atLength⟩ := front_written first heads front enough
  have kind := completes.2.1
  rw [atHead] at kind
  obtain ⟨asked, rfl⟩ := settings_of_kind heads kind
  obtain ⟨_, image, spells⟩ := @spells_written .client _ _ first heads rfl
  cases image
  have length := writeTo_length heads
  have whole : (Frame.settings asked).writeTo.length ≤ stream.input.content.length := by
    rw [length, ← atLength]
    exact completes.1
  obtain ⟨left, taken, content⟩ := readServerSettings_of_spells spells front whole
  cases reads.symm.trans taken
  have further := loop_written .client rest others left (content ▸ front_drop front whole)
  have values : Loop.values (Client.frameLoop left) = _ := further.values
  rw [same, imagesWithin_cons rfl rfl whole, values, content, List.length_drop]

/-- A connection of a client is a link of a server: each end is given a front of what the other end
writes, the server behind the client's opening. -/
structure Joined (clientTrace : List (ClientState × ClientLabel))
    (serverTrace : List (ServerState × ServerLabel)) (index : Nat) (ref : LinkRef)
    (forth back : TcpStream) : Prop where
  dialled : ∃ handshake, (dialled clientTrace)[index]? = some (back, handshake)
  accepted : ∃ token, (connections serverTrace)[ref.index]? = some (token, forth)
  toServer : forth.input.content <+:
    Consts.clientOpening ++ clientTrace.flatMap (handedOver (index + 1))
  toClient : back.input.content <+: serverTrace.flatMap (handedBy ref)

/-- What the closures at both ends of a connection are called with. -/
structure Exchanged (clientTrace : List (ClientState × ClientLabel)) (client : ClientState)
    (serverTrace : List (ServerState × ServerLabel)) (server : ServerState) (index : Nat)
    (ref : LinkRef) (forth back : TcpStream) : Prop where
  /-- The client does write the opening. -/
  opened : (Client.handshake back).2.sent = back.sent ++ Consts.clientOpening
  /-- The server's closure is handed the content among what the client's connection took. -/
  handed : ContentHanded serverTrace server ref (openingImages forth.input.content.length
    (written (clientTrace.flatMap (takenBy (index + 1)))))
  /-- The client's closure is told of the frames that the link accepted. -/
  told : framesFor (index + 1) client.told <+: imagesWithin .client back.input.content.length
    (written (serverTrace.flatMap (acceptedBy ref)))
  toldAll : client.readEnded (index + 1) →
    (index + 1 = client.connections → client.unwound = false) →
    framesFor (index + 1) client.untold = [] →
      framesFor (index + 1) client.told = imagesWithin .client back.input.content.length
        (written (serverTrace.flatMap (acceptedBy ref)))

section Ends

variable {parse : HttpParser} {clientTrace : List (ClientState × ClientLabel)}
  {client : ClientState} {serverTrace : List (ServerState × ServerLabel)} {server : ServerState}
  {autoReconnect : Bool}

/-- What is put on the outgoing channel comes from user code, or is a notice. -/
theorem enqueued_cases {step : ClientState × ClientLabel} {tr : Transaction}
    (member : tr ∈ enqueued step) :
    step.2 = .trySend tr ∨ ∃ flags token, tr = .clientChanged flags token := by
  obtain ⟨state, label⟩ := step
  cases offers : state.offers label with
  | none => simp [enqueued, offers] at member
  | some message =>
      have is : tr = message.body := by
        simp only [enqueued, offers, List.mem_ite_nil_right, List.mem_singleton] at member
        exact member.2
      subst is
      cases label with
      | trySend sent =>
          cases offers
          exact .inl rfl
      | forward =>
          simp only [ClientState.offers] at offers
          split at offers <;> cases offers
          exact .inr ⟨_, _, rfl⟩
      | _ => cases offers

/-- A connection takes what user code sends, and notices. -/
theorem taken_cases (run : clientMachine.Run (.start autoReconnect) clientTrace client)
    (connection : Nat) : ∀ tr ∈ clientTrace.flatMap (takenBy connection),
      tr ∈ clientSends clientTrace ∨ ∃ flags token, tr = .clientChanged flags token := by
  intro tr member
  obtain ⟨earlier, later, split, -⟩ := (onePiece_of_run run connection).piece
  have dequeued : tr ∈ clientTrace.flatMap dequeued := by
    rw [split]
    exact List.mem_append_left _ (List.mem_append_right _ member)
  have front : clientTrace.flatMap H2l.dequeued <+: clientTrace.flatMap enqueued :=
    run.ledger_front outgoing_ledger ⟨autoReconnect, rfl⟩ rfl
  obtain ⟨step, there, sent⟩ := List.mem_flatMap.mp (front.subset dequeued)
  refine (enqueued_cases sent).imp_left fun sends => ?_
  exact List.mem_filterMap.mpr ⟨step, there, by rw [sends]⟩

/-- A write loop takes plain transactions only, when user code sends no others. -/
theorem taken_plain (run : clientMachine.Run (.start autoReconnect) clientTrace client)
    (plain : ∀ tr ∈ clientSends clientTrace, tr.Plain) (connection : Nat) :
    ∀ tr ∈ clientTrace.flatMap (takenBy connection), tr.Plain := by
  intro tr member
  rcases taken_cases run connection tr member with sent | ⟨flags, token, rfl⟩
  · exact plain tr sent
  · trivial

/-- What a link accepts: what user code sends, notices, and the two answers to a SETTINGS frame of
its own. -/
inductive Accepted (parse : HttpParser) (trace : List (ServerState × ServerLabel))
    (ref : LinkRef) : Transaction → Prop where
  | sent {tr : Transaction} (member : tr ∈ trace.flatMap (userSends ref)) :
      Accepted parse trace ref tr
  | notice {tr : Transaction} (silent : tr.carried = none) (nothing : tr.emitted = []) :
      Accepted parse trace ref tr
  | echo {asked : Settings} {token : Option Token}
      (among : Frame.settings asked ∈ brought parse trace ref) :
      Accepted parse trace ref (.frame (.settings asked) token)
  | ack {token : Option Token} : Accepted parse trace ref (.frame (.settings Settings.ack) token)

theorem accepted_of_answers {ref : LinkRef} {messages : List Message}
    (front : framesOf ref messages <+: brought parse serverTrace ref) :
    ∀ tr ∈ messages.flatMap (Message.answers ref), Accepted parse serverTrace ref tr := by
  intro tr member
  obtain ⟨⟨body, sender⟩, there, answer⟩ := List.mem_flatMap.mp member
  unfold Message.answers at answer
  split at answer
  next asked token body =>
    split at answer
    next own =>
      have among : Frame.settings asked ∈ framesOf ref messages :=
        List.mem_filterMap.mpr ⟨_, there, by rw [if_pos own.1]; exact congrArg _ body⟩
      simp only [List.mem_cons, List.not_mem_nil, or_false] at answer
      rcases answer with rfl | rfl
      · exact .echo (front.subset among)
      · exact .ack
    next => cases answer
  next => cases answer

/-- Whatever a link accepts answers its peer or comes from user code. -/
theorem accepted_cases (run : (serverMachine parse).Run .start serverTrace server) (ref : LinkRef) :
    ∀ tr ∈ serverTrace.flatMap (acceptedBy ref), Accepted parse serverTrace ref tr := by
  intro tr member
  obtain ⟨⟨state, label⟩, there, accepted⟩ := List.mem_flatMap.mp member
  by_cases forward : label = .forward
  · subst forward
    cases carries : tr.carried with
    | none =>
        rw [acceptedBy_forward] at accepted
        cases noticing : state.noticing with
        | none => rw [noticing] at accepted; cases accepted
        | some notice =>
            rw [noticing] at accepted
            simp only at accepted
            split at accepted
            · obtain rfl := List.mem_singleton.mp accepted
              exact .notice carries (emitted_of_noticing noticing carries)
            · cases accepted
    | some carried =>
        have answered : tr ∈ serverTrace.flatMap (answeredBy ref) :=
          List.mem_flatMap.mpr ⟨_, there, List.mem_filter.mpr ⟨accepted, by rw [carries]; rfl⟩⟩
        exact accepted_of_answers (consumed_front run ref) tr
          ((answered_front run ref).subset answered)
  · rw [← userSends_of_ne forward] at accepted
    exact .sent (List.mem_flatMap.mpr ⟨_, there, accepted⟩)

/-- A link accepts frames that may be written when user code sends such and its peer brings
such. -/
theorem accepted_plain (run : (serverMachine parse).Run .start serverTrace server) {ref : LinkRef}
    (writable : ∀ asked, Frame.settings asked ∈ brought parse serverTrace ref →
      (Frame.settings asked).Writable)
    (plain : ∀ tr ∈ serverTrace.flatMap (userSends ref), tr.Plain) :
    ∀ tr ∈ serverTrace.flatMap (acceptedBy ref), tr.Plain := by
  intro tr member
  cases accepted_cases run ref tr member with
  | sent member => exact plain tr member
  | notice silent nothing => exact plain_of_silent silent nothing
  | echo among => exact writable _ among
  | ack => exact ack_writable

variable {index : Nat} {ref : LinkRef} {forth back : TcpStream}

/-- What the client writes on a connection, as frames. -/
theorem forth_written (run : clientMachine.Run (.start autoReconnect) clientTrace client)
    (plain : ∀ tr ∈ clientSends clientTrace, tr.Plain) (connection : Nat) :
    clientTrace.flatMap (handedOver connection) <+:
      (written (clientTrace.flatMap (takenBy connection))).flatMap writeTo := by
  have empty : ClientState.handOf connection (.start autoReconnect) = [] := ite_self _
  have handed := run.ledger_front (hand_ledger connection) ⟨autoReconnect, rfl⟩ empty
  rwa [← List.flatMap_assoc, (written_of_plain (taken_plain run plain connection)).1] at handed

/-- What a client of this library brings to a server: its opening, and its frames. -/
theorem brought_of_client (run : clientMachine.Run (.start autoReconnect) clientTrace client)
    (plain : ∀ tr ∈ clientSends clientTrace, tr.Plain)
    (joined : Joined clientTrace serverTrace index ref forth back) :
    brought parse serverTrace ref = openingImages forth.input.content.length
      (written (clientTrace.flatMap (takenBy (index + 1)))) := by
  obtain ⟨token, accepted⟩ := joined.accepted
  have front := joined.toServer.trans
    ((List.prefix_append_right_inj _).mpr (forth_written run plain (index + 1)))
  have writable := (written_of_plain (taken_plain run plain (index + 1))).2
  rw [brought, accepted, Option.map_some, Option.getD_some,
    (opening_delivered parse token _ writable forth front).delivered]

/-- The SETTINGS frames that a client brings may be written. -/
theorem brought_writable {count : Nat} {frames : List Frame}
    (writable : ∀ frame ∈ frames, frame.Writable) (asked : Settings)
    (among : Frame.settings asked ∈ openingImages count frames) :
    (Frame.settings asked).Writable := by
  unfold openingImages at among
  split at among
  · rcases List.mem_cons.mp among with same | among
    · rw [same]
      exact offered_writable
    · exact writable _ (settings_of_images among)
  · cases among

/-- In every run of a client and every run of a server that are the two ends of a connection, where
user code sends frames, the closure at either end is called with the images of the frames that the
other end took to write: in order, at most once, and with all that arrived in the end. -/
theorem exchanged (clientRun : clientMachine.Run (.start autoReconnect) clientTrace client)
    (serverRun : (serverMachine parse).Run .start serverTrace server)
    (joined : Joined clientTrace serverTrace index ref forth back)
    (clientPlain : ∀ tr ∈ clientSends clientTrace, tr.Plain)
    (serverPlain : ∀ tr ∈ serverTrace.flatMap (userSends ref), tr.Plain) :
    Exchanged clientTrace client serverTrace server index ref forth back := by
  have brings : brought parse serverTrace ref = _ :=
    brought_of_client clientRun clientPlain joined
  have taken := (written_of_plain (taken_plain clientRun clientPlain (index + 1))).2
  have accepted := written_of_plain (accepted_plain serverRun
    (fun asked among => brought_writable taken asked (brings ▸ among)) serverPlain)
  have front := joined.toClient.trans (handed_front serverRun ref)
  rw [accepted.1] at front
  obtain ⟨handshake, found⟩ := joined.dialled
  have shakes : (handshakes clientTrace)[index]? = some handshake := by
    rw [handshakes_dialled, List.getElem?_map, found]
    rfl
  obtain ⟨after, shaken, input⟩ := session_of_dialled found
  obtain ⟨sent, greeted, same, reads⟩ := handshake_completes shaken
  have frames : handshake.session.frames = imagesWithin .client back.input.content.length
      (written (serverTrace.flatMap (acceptedBy ref))) := by
    rw [Session.frames, input, ← same]
    exact read_of_written accepted.2 (same ▸ front) reads
  have handed := handed_of_run serverRun ref
  rw [brings] at handed
  refine ⟨by rw [shaken, sent], handed, ?_, fun ended within told => ?_⟩
  · have sofar := frames_of_clientRun clientRun shakes
    rw [framesFor_append, frames] at sofar
    exact (List.prefix_append _ _).trans sofar
  · rw [← frames, ← frames_of_ended clientRun shakes ended within, framesFor_append, told,
      List.append_nil]

end Ends

/-- A client that reads what `openedTrace` writes to it, and sends the greeting. -/
def greetingClient : List ClientLabel :=
  List.flatten [[.mantain, .connect (.connected 7 openedBack)], List.replicate 9 .mantain,
    greeting.map (fun frame => .trySend (.frame frame none)), List.replicate 8 (.write true),
    List.replicate 3 .read, List.replicate 9 .forward]

/-- The trace of `greetingClient`. -/
def greetingTrace : List (ClientState × ClientLabel) :=
  clientMachine.traceOf (.start false) greetingClient

/-- The two runs of one connection, each with what the other wrote. -/
theorem greetingTrace_joined :
    Joined greetingTrace openedTrace 0 ⟨0⟩ openedGreeting openedBack where
  dialled := ⟨_, rfl⟩
  accepted := ⟨_, rfl⟩
  toServer := by
    have handed : greetingTrace.flatMap (handedOver 1) = greeting.flatMap writeTo := by decide
    rw [handed]
    exact openedGreeting_front
  toClient := by
    simp [openedBack, Source.content_ofContent]

/-- Client and server run to the end of a greeting, and each is told of the other's frames. -/
theorem greetingTrace_exchanged :
    ∃ client server, Exchanged greetingTrace client openedTrace server 0 ⟨0⟩
        openedGreeting openedBack ∧
      framesFor 1 client.told = [.settings Settings.offered, .settings Settings.ack] ∧
      (contentOf ⟨0⟩ (callbackLog openedTrace)).length = 1 := by
  obtain ⟨client, clientRun, told⟩ := @Machine.run_of_exec_any _ _ clientMachine (.start false)
    greetingClient (fun state => framesFor 1 state.told ==
      [.settings Settings.offered, .settings Settings.ack]) (by decide)
  obtain ⟨server, serverRun, -⟩ := @Machine.run_of_exec_any _ _
    (serverMachine fun _ => .incomplete) .start openedThenData (fun _ => true) (by decide)
  have clientPlain : ∀ tr ∈ clientSends greetingTrace, tr.Plain := by
    have sends : clientSends greetingTrace = greeting.map (.frame · none) := by decide
    rw [sends]
    exact List.forall_mem_map.mpr greeting_writable
  have serverPlain : ∀ tr ∈ openedTrace.flatMap (userSends ⟨0⟩), tr.Plain := by
    have silent : openedTrace.flatMap (userSends ⟨0⟩) = [] := by decide
    simp [silent]
  exact ⟨client, server,
    exchanged clientRun serverRun greetingTrace_joined clientPlain serverPlain,
    by simpa using told, by decide⟩

end H2l
