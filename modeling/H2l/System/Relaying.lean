import H2l.System.Exchange
import H2l.Wire.Reread

/-!
# Applications that pass frames on

User code that sends only frames that its closure was called with, to whatever links or
connections. Whatever bytes the peers of such a server send, a client that reads from any of its
links does not unwind, and is told of the very frames that the link accepted
(`server_relays`); nor does such a client unwind a server (`client_relays`).
-/

namespace H2l

open Base H2l.Frame

/-- What puts nothing on the wire but frames that were heard. -/
def Transaction.Repeats (heard : List Transaction) : Transaction → Prop
  | .bytes raw _ => raw = []
  | .frame sent _ => ∃ call ∈ heard, call.carried = some sent
  | _ => True

instance (heard : List Transaction) : (tr : Transaction) → Decidable (tr.Repeats heard)
  | .bytes raw _ => inferInstanceAs (Decidable (raw = []))
  | .frame sent _ => inferInstanceAs (Decidable (∃ call ∈ heard, call.carried = some sent))
  | .newLink _ | .linkChanged _ _ | .clientChanged _ _ | .serverChanged _ =>
      inferInstanceAs (Decidable True)

/-- The frames of what was heard are those of what repeats it. -/
theorem Transaction.Repeats.carried {heard : List Transaction} {tr : Transaction} {frame : Frame}
    (repeats : tr.Repeats heard) (carries : tr.carried = some frame) :
    ∃ call ∈ heard, call.carried = some frame := by
  cases tr with
  | frame sent token =>
      cases carries
      exact repeats
  | _ => cases carries

theorem Transaction.Repeats.plain {heard : List Transaction} {tr : Transaction}
    (repeats : tr.Repeats heard)
    (writable : ∀ call ∈ heard, ∀ frame, call.carried = some frame → frame.Writable) :
    tr.Plain := by
  cases tr with
  | bytes raw token => exact repeats
  | frame sent token =>
      obtain ⟨call, member, carries⟩ := repeats
      exact writable call member sent carries
  | _ => trivial

/-- A client whose peer writes frames does not unwind. -/
theorem session_of_written {frames : List Frame} (writable : ∀ frame ∈ frames, frame.Writable)
    {stream : TcpStream} (front : stream.input.content <+: frames.flatMap writeTo) :
    SessionSafe stream := by
  refine (sessionSafe_iff stream).mpr fun _ => ⟨fun enough kind => ?_, fun completes => ?_⟩
  · obtain ⟨frame, rest, head, heads, first, -, front, -⟩ :=
      first_of_written writable front enough
    obtain ⟨atHead, atLength⟩ := front_written first heads front enough
    rw [atHead] at kind
    obtain ⟨asked, rfl⟩ := settings_of_kind heads kind
    have bound := asked.payloadLen_le
    rw [atLength, Frame.body, ← Settings.payloadLen_eq]
    exact bound.trans (by decide)
  · have enough : 9 ≤ stream.input.content.length := by
      have whole := completes.1
      omega
    obtain ⟨frame, rest, head, heads, first, others, front, -⟩ :=
      first_of_written writable front enough
    obtain ⟨-, atLength⟩ := front_written first heads front enough
    have length := writeTo_length heads
    rw [← atLength] at length
    have further : stream.input.content.drop (9 + lengthAt stream.input.content) <+:
        rest.flatMap writeTo := by
      rw [← length]
      exact front_drop front (length ▸ completes.1)
    generalize stream.input.content.drop (9 + lengthAt stream.input.content) = bytes at further
    have left : (Source.ofContent bytes none : TcpInput).content = bytes :=
      Source.content_ofContent _ _
    have loop := loop_written .client rest others (Source.ofContent bytes none)
      (left.symm ▸ further)
    obtain ⟨err, failed⟩ := loop.failed (.inl (List.takeWhile_eq_self_iff.mpr fun _ _ => rfl))
    have calm := client_frameLoop_panics_iff (Source.ofContent bytes none)
    rw [left] at calm
    refine Classical.not_not.mp fun long => ?_
    obtain ⟨cause, panics⟩ := calm.mpr long
    cases failed.symm.trans panics

/-- What user code hands to a server in a step. -/
def ServerLabel.sent : ServerLabel → Option Transaction
  | send _ tr | sendTo _ tr => some tr
  | _ => none

/-- User code of a server repeats what the closure was called with. -/
def ServerState.Relays (state : ServerState) (label : ServerLabel) : Prop :=
  ∀ tr ∈ label.sent, tr.Repeats state.callbacks

instance (state : ServerState) (label : ServerLabel) : Decidable (state.Relays label) :=
  inferInstanceAs (Decidable (∀ tr ∈ label.sent, _))

section Server

variable {parse : HttpParser} {trace more : List (ServerState × ServerLabel)}
  {state : ServerState}

/-- What a connection brings is not changed by what comes later. -/
theorem brought_append {ref : LinkRef} {frame : Frame} (member : frame ∈ brought parse trace ref) :
    frame ∈ brought parse (trace ++ more) ref := by
  unfold brought at member ⊢
  cases found : (connections trace)[ref.index]? with
  | none => rw [found] at member; cases member
  | some connection =>
      have kept : (connections (trace ++ more))[ref.index]? = some connection := by
        rw [connections, List.filterMap_append]
        exact (List.getElem?_append_left (List.getElem?_eq_some_iff.mp found).choose).trans found
      rw [kept]
      rwa [found] at member

/-- What a connection brings can be passed on. -/
theorem brought_passable {ref : LinkRef} {frame : Frame}
    (member : frame ∈ brought parse trace ref) : frame.Passable := by
  unfold brought at member
  cases found : (connections trace)[ref.index]? with
  | none => rw [found] at member; cases member
  | some connection =>
      obtain ⟨token, stream⟩ := connection
      rw [found, Option.map_some, Option.getD_some] at member
      by_cases calm : ∀ cause, (Link.handshake parse stream).1 ≠ .panic cause
      · rw [delivered_of_calm token _ calm] at member
        exact passable_of_loop .server _ frame member
      · obtain ⟨cause, unwinds⟩ := not_forall_not.mp calm
        rw [delivered_of_panic token _ unwinds] at member
        cases member

/-- The closure is called with frames that connections bring. -/
theorem heard_of_run (run : (serverMachine parse).Run .start trace state) {call : Transaction}
    (member : call ∈ state.callbacks) {frame : Frame} (carries : call.carried = some frame) :
    ∃ ref, frame ∈ brought parse trace ref := by
  rw [(called_of_run run).called] at member
  rcases List.mem_append.mp member with said | closes
  · obtain ⟨⟨subject, tr⟩, logged, rfl⟩ := List.mem_map.mp said
    cases told_of_callback run logged with
    | @content carried ref known content =>
        cases carries
        refine ⟨ref, List.mem_of_mem_filter ((handed_of_run run ref).inOrder.subset ?_)⟩
        exact List.mem_filterMap.mpr ⟨_, logged, by simp [Transaction.content, content]⟩
    | attached | detached | closing => cases carries
  · split at closes
    · obtain rfl := List.mem_singleton.mp closes
      cases carries
    · cases closes

/-- What user code sends carries frames that connections brought. -/
theorem sent_of_relaying (run : (serverMachine parse).Run .start trace state)
    (relays : Machine.Guarded ServerState.Relays trace) :
    ∀ step ∈ trace, ∀ tr, step.2.sent = some tr →
      tr.Plain ∧ ∀ frame, tr.carried = some frame → ∃ ref, frame ∈ brought parse trace ref := by
  induction run with
  | nil => exact fun step member => absurd member List.not_mem_nil
  | @snoc trace before label after prior taken ih =>
      obtain ⟨earlier, last⟩ := Machine.guarded_snoc_iff.mp relays
      intro step member tr sends
      rcases List.mem_append.mp member with there | latest
      · obtain ⟨plain, heard⟩ := ih earlier step there tr sends
        refine ⟨plain, fun frame carries => ?_⟩
        obtain ⟨ref, brings⟩ := heard frame carries
        exact ⟨ref, brought_append brings⟩
      · obtain rfl := List.mem_singleton.mp latest
        have repeats := last tr sends
        constructor
        · refine repeats.plain fun call called frame carries => ?_
          obtain ⟨ref, brings⟩ := heard_of_run prior called carries
          exact (brought_passable brings).writable
        · intro frame carries
          obtain ⟨call, called, carries⟩ := repeats.carried carries
          obtain ⟨ref, brings⟩ := heard_of_run prior called carries
          exact ⟨ref, brought_append brings⟩

/-- A link accepts from user code what user code sends. -/
theorem sent_of_userSends {ref : LinkRef} {step : ServerState × ServerLabel} {tr : Transaction}
    (member : tr ∈ userSends ref step) : step.2.sent = some tr := by
  obtain ⟨state, label⟩ := step
  cases label with
  | send target sent =>
      simp only [userSends, acceptedBy, ServerState.sends] at member
      by_cases held : target ∈ state.held
      · rw [if_pos held] at member
        exact congrArg some (List.mem_singleton.mp (List.mem_ite_nil_right.mp member).2).symm
      · rw [if_neg held] at member
        cases member
  | sendTo token sent =>
      simp only [userSends, acceptedBy, ServerState.sends] at member
      cases listed : state.links token with
      | none => rw [listed] at member; cases member
      | some target =>
          rw [listed] at member
          exact congrArg some (List.mem_singleton.mp (List.mem_ite_nil_right.mp member).2).symm
  | _ => cases member

/-- What a client makes of what a link writes to it. -/
structure ServerRelays (parse : HttpParser) (trace : List (ServerState × ServerLabel))
    (ref : LinkRef) (stream : TcpStream) : Prop where
  safe : SessionSafe stream
  told : ∀ settings after, Client.handshake stream = (.ok settings, after) →
    .settings settings :: Loop.values (Client.frameLoop after.input) =
      imagesWithin .client stream.input.content.length (written (trace.flatMap (acceptedBy ref)))
  heard : ∀ frame ∈ written (trace.flatMap (acceptedBy ref)),
    frame = .settings Settings.ack ∨ ∃ other, frame ∈ brought parse trace other

/-- In every run of a server whose user code sends only frames that the closure was called with,
and whatever the peers send, a client that reads from a link does not unwind: it is told of the
frames that the link accepted, each of which a connection brought or acknowledges settings. -/
theorem server_relays (run : (serverMachine parse).Run .start trace state)
    (relays : Machine.Guarded ServerState.Relays trace) (ref : LinkRef) (stream : TcpStream)
    (front : stream.input.content <+: trace.flatMap (handedBy ref)) :
    ServerRelays parse trace ref stream := by
  have sent := sent_of_relaying run relays
  have plain : ∀ tr ∈ trace.flatMap (userSends ref), tr.Plain := by
    intro tr member
    obtain ⟨step, there, sends⟩ := List.mem_flatMap.mp member
    exact (sent step there tr (sent_of_userSends sends)).1
  obtain ⟨bytes, writable⟩ := written_of_plain
    (accepted_plain run (fun asked among => (brought_passable among).writable) plain)
  have written := front.trans (handed_front run ref)
  rw [bytes] at written
  refine ⟨session_of_written writable written, fun settings after shaken => ?_,
    fun frame member => ?_⟩
  · obtain ⟨-, greeted, same, reads⟩ := handshake_completes shaken
    exact same ▸ read_of_written writable (same ▸ written) reads
  · obtain ⟨tr, accepted, carries⟩ := List.mem_filterMap.mp member
    cases accepted_cases run ref tr accepted with
    | sent member =>
        obtain ⟨step, there, sends⟩ := List.mem_flatMap.mp member
        exact .inr ((sent step there tr (sent_of_userSends sends)).2 frame carries)
    | notice silent => cases silent.symm.trans carries
    | echo among =>
        cases carries
        exact .inr ⟨ref, among⟩
    | ack =>
        cases carries
        exact .inl rfl

end Server

/-- The content that the closure was handed in `openedThenData`. -/
def echo : Transaction := .frame ((greeting[1]?.bind relayed).getD .unknown) none

/-- A server that sends the content back. -/
def echoed : List ServerLabel :=
  openedThenData ++ [.sendTo ⟨7⟩ echo, .write ⟨0⟩ true, .write ⟨0⟩ true]

/-- The trace of `echoed`. -/
def echoedTrace : List (ServerState × ServerLabel) :=
  (serverMachine fun _ => .incomplete).traceOf .start echoed

/-- The client's end of the connection. -/
def echoedBack : TcpStream :=
  ⟨Source.ofContent (echoedTrace.flatMap (handedBy ⟨0⟩)) none, 2, []⟩

/-- A server that sends its peer's content back. -/
theorem echoedTrace_relays :
    ∃ state, (serverMachine fun _ => .incomplete).Run .start echoedTrace state ∧
      ServerRelays (fun _ => .incomplete) echoedTrace ⟨0⟩ echoedBack ∧
      (written (echoedTrace.flatMap (acceptedBy ⟨0⟩))).length = 3 := by
  obtain ⟨state, run, -⟩ := @Machine.run_of_exec_any _ _ (serverMachine fun _ => .incomplete)
    .start echoed (fun _ => true) (by decide)
  have relays : ∀ taken ∈ echoedTrace, taken.1.Relays taken.2 := by decide
  have front : echoedBack.input.content <+: echoedTrace.flatMap (handedBy ⟨0⟩) := by
    simp [echoedBack, Source.content_ofContent]
  exact ⟨state, run, server_relays run relays ⟨0⟩ echoedBack front, by decide⟩

/-- What user code hands to a client in a step. -/
def ClientLabel.sent : ClientLabel → Option Transaction
  | trySend tr => some tr
  | _ => none

/-- User code of a client repeats what the closure was called with. -/
def ClientState.Relays (state : ClientState) (label : ClientLabel) : Prop :=
  ∀ tr ∈ label.sent, tr.Repeats (state.told.map ClientMessage.body)

instance (state : ClientState) (label : ClientLabel) : Decidable (state.Relays label) :=
  inferInstanceAs (Decidable (∀ tr ∈ label.sent, _))

/-- A frame that a connection of a client brought: the settings of its handshake, or a frame
behind them. -/
def Brought (trace : List (ClientState × ClientLabel)) (frame : Frame) : Prop :=
  ∃ handshake ∈ handshakes trace, frame ∈ handshake.session.frames

/-- The settings of a handshake were loaded. -/
theorem loads_of_readServerSettings {stream after : TcpStream} {settings : Settings}
    (reads : Client.readServerSettings stream = (.ok settings, after)) :
    ∃ head payload, Settings.load head payload = .ok settings := by
  unfold Client.readServerSettings at reads
  split at reads
  · cases reads
  · simp only at reads
    split at reads
    · split at reads
      · cases reads
      · split at reads
        · cases reads
        · split at reads
          next loads => cases reads; exact ⟨_, _, loads⟩
          next => cases reads
    · cases reads

section Client

variable {autoReconnect : Bool} {trace more : List (ClientState × ClientLabel)}
  {state : ClientState} {frame : Frame}

theorem Brought.append (brings : Brought trace frame) : Brought (trace ++ more) frame := by
  obtain ⟨handshake, member, among⟩ := brings
  refine ⟨handshake, ?_, among⟩
  rw [handshakes, List.filterMap_append]
  exact List.mem_append_left _ member

theorem Brought.passable (brings : Brought trace frame) : frame.Passable := by
  obtain ⟨handshake, member, among⟩ := brings
  rcases List.mem_cons.mp among with rfl | follows
  · obtain ⟨taken, -, shakes⟩ := List.mem_filterMap.mp member
    generalize taken.2 = label at shakes
    unfold ClientLabel.handshake at shakes
    split at shakes
    · split at shakes <;> cases shakes
      next shaken =>
        obtain ⟨-, greeted, -, reads⟩ := handshake_completes shaken
        obtain ⟨head, payload, loads⟩ := loads_of_readServerSettings reads
        exact Settings.passable_of_load loads
    · cases shakes
  · exact passable_of_loop .client _ frame follows

/-- The closure is called with frames that connections brought. -/
theorem clientHeard_of_run (run : clientMachine.Run (.start autoReconnect) trace state)
    {message : ClientMessage} (member : message ∈ state.told)
    (carries : message.body.carried = some frame) : Brought trace frame := by
  have among : message ∈ state.told ++ state.untold := List.mem_append_left _ member
  have events := events_of_run run
  rw [← sent_split run] at among
  obtain ⟨posted, sent, rfl⟩ := List.mem_map.mp among
  obtain ⟨positive, bound⟩ := events.numbered posted sent
  obtain ⟨index, numbered⟩ := Nat.exists_eq_add_of_lt positive
  rw [Nat.zero_add] at numbered
  have known : index < (handshakes trace).length := by
    rw [events.connections]
    omega
  have found : (handshakes trace)[index]? = some (handshakes trace)[index] :=
    List.getElem?_eq_getElem known
  refine ⟨_, List.getElem_mem known, (frames_of_clientRun run found).subset ?_⟩
  rw [framesFor_append]
  exact List.mem_append_left _ (List.mem_filterMap.mpr ⟨_, member, by rw [if_pos numbered, carries]⟩)

/-- What user code sends carries frames that connections brought. -/
theorem clientSent_of_relaying (run : clientMachine.Run (.start autoReconnect) trace state)
    (relays : Machine.Guarded ClientState.Relays trace) :
    ∀ tr ∈ clientSends trace,
      tr.Plain ∧ ∀ frame, tr.carried = some frame → Brought trace frame := by
  induction run with
  | nil => exact fun tr member => absurd member List.not_mem_nil
  | @snoc trace before label after prior taken ih =>
      obtain ⟨earlier, last⟩ := Machine.guarded_snoc_iff.mp relays
      intro tr member
      rw [clientSends, List.filterMap_append] at member
      rcases List.mem_append.mp member with there | latest
      · obtain ⟨plain, heard⟩ := ih earlier tr there
        exact ⟨plain, fun frame carries => (heard frame carries).append⟩
      · obtain ⟨step, is, sends⟩ := List.mem_filterMap.mp latest
        obtain rfl := List.mem_singleton.mp is
        have same : label.sent = some tr := by
          cases label with
          | trySend sent => exact sends
          | _ => cases sends
        have heard : ∀ call ∈ before.told.map ClientMessage.body, ∀ frame,
            call.carried = some frame → Brought trace frame := by
          intro call called frame carries
          obtain ⟨message, told, rfl⟩ := List.mem_map.mp called
          exact clientHeard_of_run prior told carries
        have repeats := last tr same
        constructor
        · exact repeats.plain fun call called frame carries =>
            (heard call called frame carries).passable.writable
        · intro frame carries
          obtain ⟨call, called, carries⟩ := repeats.carried carries
          exact (heard call called frame carries).append

/-- What a server makes of what a connection of a client writes to it. -/
structure ClientRelays (parse : HttpParser) (trace : List (ClientState × ClientLabel))
    (connection : Nat) (stream : TcpStream) : Prop where
  shaken : (Link.handshake parse stream).1 = .ok ()
  delivered : ∀ token word, Link.delivered parse token word stream =
    openingImages stream.input.content.length (written (trace.flatMap (takenBy connection)))
  failed : ∃ err,
    (Link.frameLoop (Link.handshake parse stream).2.input).exit = .failed (.io err)
  heard : ∀ frame ∈ written (trace.flatMap (takenBy connection)), Brought trace frame

/-- In every run of a client whose user code sends only frames that the closure was called with, and
whatever the servers send, a server that reads from a connection does not unwind: it delivers the
offered settings and then the images of what the connection took, all of which a connection
brought. -/
theorem client_relays (run : clientMachine.Run (.start autoReconnect) trace state)
    (relays : Machine.Guarded ClientState.Relays trace) (parse : HttpParser) (connection : Nat)
    (stream : TcpStream)
    (front : stream.input.content <+:
      Consts.clientOpening ++ trace.flatMap (handedOver connection)) :
    ClientRelays parse trace connection stream := by
  have sent := clientSent_of_relaying run relays
  have plain : ∀ tr ∈ clientSends trace, tr.Plain := fun tr member => (sent tr member).1
  have heard : ∀ frame ∈ written (trace.flatMap (takenBy connection)), Brought trace frame := by
    intro frame member
    obtain ⟨tr, taken, carries⟩ := List.mem_filterMap.mp member
    rcases taken_cases run connection tr taken with sends | ⟨flags, token, rfl⟩
    · exact (sent tr sends).2 frame carries
    · cases carries
  have passable : ∀ frame ∈ written (trace.flatMap (takenBy connection)), frame.Passable :=
    fun frame member => (heard frame member).passable
  have opening := fun token => opening_delivered parse token _
    (fun frame member => (passable frame member).writable) stream
    (front.trans ((List.prefix_append_right_inj _).mpr (forth_written run plain connection)))
  exact ⟨(opening ⟨0⟩).shaken, fun token => (opening token).delivered,
    (opening ⟨0⟩).failed (.inr (.inl (takeWhile_of_passable passable))), heard⟩

end Client

/-- A client that is told of what `echoedTrace` writes to it, and sends the content on. -/
def echoing : List ClientLabel :=
  List.flatten [[.mantain, .connect (.connected 7 echoedBack)], List.replicate 9 .mantain,
    List.replicate 6 .read, List.replicate 12 .forward, [.trySend echo],
    List.replicate 2 (.write true)]

/-- The trace of `echoing`. -/
def echoingTrace : List (ClientState × ClientLabel) :=
  clientMachine.traceOf (.start false) echoing

/-- The server's end of the connection. -/
def echoingForth : TcpStream :=
  ⟨Source.ofContent (Consts.clientOpening ++ echoingTrace.flatMap (handedOver 1)) none, 2, []⟩

/-- A client that sends its server's content back. -/
theorem echoingTrace_relays :
    ∃ state, clientMachine.Run (.start false) echoingTrace state ∧
      ClientRelays (fun _ => .incomplete) echoingTrace 1 echoingForth ∧
      (written (echoingTrace.flatMap (takenBy 1))).length = 1 := by
  obtain ⟨state, run, -⟩ := @Machine.run_of_exec_any _ _ clientMachine (.start false) echoing
    (fun _ => true) (by decide)
  have relays : ∀ taken ∈ echoingTrace, taken.1.Relays taken.2 := by decide
  have front : echoingForth.input.content <+:
      Consts.clientOpening ++ echoingTrace.flatMap (handedOver 1) := by
    simp [echoingForth, Source.content_ofContent]
  exact ⟨state, run, client_relays run relays _ 1 echoingForth front, by decide⟩

end H2l
