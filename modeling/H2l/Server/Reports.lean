import H2l.Server.Delivery
import H2l.Server.Shutdown

/-!
# What the application is told

A run of a server is a run of its registry. What the closure is called with is what the
registry tells the application: every frame that the read loop of a link delivers is
looked at once and in order, and the application can keep the table for itself.
-/

namespace H2l

open Base

/-- The connection that a step accepts. -/
def connectionOf : ServerState × ServerLabel → Option (Token × TcpStream)
  | (_, .connect token stream) => some (token, stream)
  | _ => none

/-- The connections that a run accepts, oldest first. -/
def connections (trace : List (ServerState × ServerLabel)) : List (Token × TcpStream) :=
  trace.filterMap connectionOf

variable {parse : HttpParser} {state after : ServerState} {trace : List (ServerState × ServerLabel)}

/-- A frame, an attachment or a detachment under the token of its link, or the end. -/
inductive Told (state : ServerState) : Callback → Prop where
  | content {carried ref} (known : ref.index < state.created.length) (content : carried.isContent) :
      Told state (some ref, .frame carried (some (state.tokenOf ref)))
  | attached {ref} (known : ref.index < state.created.length) :
      Told state (some ref, .linkChanged .attached (state.tokenOf ref))
  | detached {ref} (known : ref.index < state.created.length) :
      Told state (some ref, .linkChanged .detached (state.tokenOf ref))
  | closing : Told state closing

/-- What is reported of a proper message. -/
theorem told_of_report {message : Message} (proper : Proper state message) {report : Report}
    (reports : state.report message = some report) : Told state report := by
  cases proper with
  | frame known =>
      simp only [ServerState.report] at reports
      split at reports <;> cases reports
      next content => exact .content known content
  | changed known =>
      simp only [ServerState.report] at reports
      split at reports <;> cases reports
      exact .detached known
  | registers known =>
      cases reports
      exact .attached known
  | exits =>
      cases reports
      exact .closing

/-- The closure is called about the link of the last message. -/
theorem callOf_calling {tr : Transaction} {last : Bool} {message : Message}
    (pc : state.forward = .calling tr last) (consumed : state.consumed.getLast? = some message) :
    callOf (state, .forward) = [(message.subject, tr)] := by
  simp [callOf, pc, consumed]

/-- The call that handling a frame leads to is its report. -/
theorem callOf_handleFrame {carried : Frame} {token : Option Token} {ref : LinkRef}
    (last : state.consumed.getLast? = some ⟨.frame carried token, some ref⟩) :
    callOf (state.handle (.frame carried token), .forward) =
      (state.report ⟨.frame carried token, some ref⟩).toList := by
  cases carried with
  | data frame => exact callOf_calling rfl last
  | headers frame => exact callOf_calling rfl last
  | settings settings =>
      refine callOf_idle fun tr last => ?_
      simp only [ServerState.handle, ServerState.handleFrame]
      split
      · simp
      · rw [sendUnwrap_forward]
        split <;> simp
  | _ => rfl

/-- The call that handling a message leads to is its report. -/
theorem callOf_handled {message : Message} (proper : Proper state message)
    (last : state.consumed.getLast? = some message) :
    callOf (state.handle message.body, .forward) = (state.report message).toList := by
  cases proper with
  | frame known => exact callOf_handleFrame last
  | @changed flags ref known =>
      simp only [ServerState.handle, ServerState.handleLinkChanged, ServerState.report]
      cases linkChangedArm flags with
      | notify => exact callOf_idle (by simp only; split <;> simp)
      | ignore => exact callOf_idle (by simp)
      | detach => exact callOf_calling rfl last
  | registers known => exact callOf_calling rfl last
  | exits => exact callOf_calling rfl last

/-- The log and the call that the forward loop is about to make. -/
def logged (trace : List (ServerState × ServerLabel)) (state : ServerState) : List Callback :=
  callbackLog trace ++ callOf (state, .forward)

theorem callOf_kept (kept : ForwardKept state after) :
    callOf (after, .forward) = callOf (state, .forward) := by
  simp only [callOf, kept.forward, kept.consumed]

/-- Between two messages nothing of the forward loop is seen. -/
theorem registry_of_idle (reachable : (serverMachine parse).Reachable state)
    (idle : state.forward.current = [])
    (taken : (serverMachine parse).step state .forward = some after) :
    after.registry parse = state.registry parse := by
  have seen := registry_of_forward reachable taken
  rw [ServerState.event, idle] at seen
  exact (Option.some.inj seen).symm

/-- A step of the forward loop tells the application what it will call the closure with. -/
theorem told_of_forward (reachable : (serverMachine parse).Reachable state)
    (taken : (serverMachine parse).step state .forward = some after) :
    (after.registry parse).told = (state.registry parse).told ++ callOf (after, .forward) := by
  have idle : state.forward.current = [] → callOf (after, .forward) = [] →
      (after.registry parse).told = (state.registry parse).told ++ callOf (after, .forward) := by
    intro current silent
    rw [registry_of_idle reachable current taken, silent, List.append_nil]
  cases forward_move taken with
  | received pc => exact idle (by rw [pc]; rfl) rfl
  | @called tr last pc => exact idle (by rw [pc]; rfl) (by cases last <;> rfl)
  | acknowledged pc =>
      refine idle (by rw [pc]; rfl) (callOf_idle fun tr last => ?_)
      rw [sendUnwrap_forward]
      split <;> simp
  | @handled message pc =>
      have last := last_of_handling reachable pc
      have proper := proper_of_reachable reachable message
        (List.mem_append_left _ (List.mem_of_getLast? last))
      have turned := turned_handle parse pc
      rw [callOf_handled proper last]
      exact turned.applied reachable

/-- The registry has told the application what the closure was called with, and what it is about to
be called with. -/
theorem told_of_run (run : (serverMachine parse).Run .start trace state) :
    (state.registry parse).told = logged trace state := by
  induction run with
  | nil => rfl
  | @snoc trace before label after prior taken ih =>
      have reachable : (serverMachine parse).Reachable before := ⟨_, trace, rfl, prior⟩
      rw [logged, callbackLog_snoc]
      by_cases forward : label = .forward
      · subst forward
        rw [told_of_forward reachable taken, ih, logged]
      · have kept := (step_effect taken forward).2
        have moves := linksMove_of_move (step_move taken)
        have told : (after.registry parse).told = (before.registry parse).told := by
          simp only [ServerState.registry, kept.applied, reports_kept reachable moves]
        rw [told, ih, callOf_other forward, List.append_nil, callOf_kept kept, logged]

/-- No message makes a link join. -/
theorem joined_of_message {message : Message} {event : RegistryEvent}
    (seen : message.event = some event) : event.joined = none := by
  unfold Message.event at seen
  split at seen
  · cases seen
    rfl
  · cases seen
    rfl
  · split at seen <;> cases seen
    rfl
  · split at seen <;> cases seen
    rfl
  · cases seen

/-- The inboxes of a run's registry are what the read loops deliver when left alone. -/
theorem joined_of_run (parse : HttpParser) (trace : List (ServerState × ServerLabel)) :
    joined (trace.filterMap (serverRefinement parse).image) = (connections trace).map
      fun connection => Link.delivered parse connection.1 LinkFlags.none.bits connection.2 := by
  rw [joined, connections, List.filterMap_filterMap, List.map_filterMap]
  refine List.filterMap_congr fun taken _ => ?_
  obtain ⟨state, label⟩ := taken
  cases label with
  | forward =>
      cases seen : state.event parse .forward with
      | none => simp [Machine.Refinement.image, serverRefinement, seen, connectionOf]
      | some event =>
          obtain ⟨message, -, handled⟩ := Option.bind_eq_some_iff.mp seen
          simp [Machine.Refinement.image, serverRefinement, seen, connectionOf,
            joined_of_message handled]
  | _ => rfl

/-- A run of a server is a run of its registry, and the closure is called with what the registry
tells. -/
structure RunsRegistry (parse : HttpParser) (trace : List (ServerState × ServerLabel))
    (state : ServerState) : Prop where
  run : registryMachine.Run .start (trace.filterMap (serverRefinement parse).image)
    (state.registry parse)
  told : (state.registry parse).told = logged trace state
  called : state.callbacks = (callbackLog trace).map Prod.snd ++
    if state.main = .returned then [.serverChanged .terminated] else []

/-- Every run of a server is a run of the registry that it is. -/
theorem server_runs_registry (run : (serverMachine parse).Run .start trace state) :
    RunsRegistry parse trace state where
  run := ((serverRefinement parse).run rfl run).2
  told := told_of_run run
  called := (called_of_run run).called

/-- A link with one HEADERS frame, and the registry of the same run. -/
theorem attachedThenHeaders_registry :
    ∃ state trace, (serverMachine fun _ => .incomplete).Run .start trace state ∧
      state.callbacks.length = 2 ∧ RunsRegistry (fun _ => .incomplete) trace state := by
  obtain ⟨state, run, called⟩ := @Machine.run_of_exec_any _ _ (serverMachine fun _ => .incomplete)
    .start attachedThenHeaders (fun state => state.callbacks.length = 2) (by decide)
  exact ⟨state, _, run, by simpa using called, server_runs_registry run⟩

/-- Nothing of a link is on the way to the closure: its read loop has left the frame loop, and the
forward loop waits for a message of somebody else. -/
def ServerState.delivered (state : ServerState) (ref : LinkRef) : Prop :=
  (∀ link, state.link ref = some link →
    (∃ pc, link.reader = .closing pc) ∨ link.reader = .panicked) ∧
  (∀ message ∈ state.channel.items, message.sender ≠ some ref) ∧ state.forward = .receiving

/-- The content of a connection is handed over in order and at most once, and all of it in the
end. -/
structure ContentHanded (trace : List (ServerState × ServerLabel)) (state : ServerState)
    (ref : LinkRef) (frames : List Frame) : Prop where
  inOrder : contentOf ref (callbackLog trace) <+: frames.filter Frame.isContent
  complete : state.delivered ref →
    contentOf ref (callbackLog trace) = frames.filter Frame.isContent

/-- What has been delivered is not in the inbox any more. -/
theorem inbox_of_delivered {ref : LinkRef} {peer : Peer} (delivered : state.delivered ref)
    (found : (state.registry parse).peer ref = some peer) : peer.inbox = [] := by
  obtain ⟨left, elsewhere, receiving⟩ := delivered
  rw [registry_peer] at found
  obtain ⟨link, there, rfl⟩ := Option.map_eq_some_iff.mp found
  have unread : link.unread parse = [] := by
    rcases left link there with ⟨pc, closing⟩ | panicked
    · simp [LinkState.unread, closing]
    · simp [LinkState.unread, panicked]
  have queued : framesOf ref state.channel.items = [] :=
    List.filterMap_eq_nil_iff.mpr fun message member => if_neg (elsewhere message member)
  simp [ServerState.inbox, receiving, queued, unread]

/-- What a registry keeps, of the registry that a server is. -/
theorem registryInv_of_server (run : (serverMachine parse).Run .start trace state) :
    RegistryInv ((connections trace).map fun connection =>
      Link.delivered parse connection.1 LinkFlags.none.bits connection.2)
      (state.registry parse) := by
  rw [← joined_of_run]
  exact registryInv_of_run ((serverRefinement parse).run rfl run).2

/-- The frames of a connection of a run, as its read loop delivers them when left alone. -/
def brought (parse : HttpParser) (trace : List (ServerState × ServerLabel)) (ref : LinkRef) :
    List Frame :=
  ((connections trace)[ref.index]?.map fun connection =>
    Link.delivered parse connection.1 LinkFlags.none.bits connection.2).getD []

/-- Every connection is a link. -/
theorem connections_length (run : (serverMachine parse).Run .start trace state) :
    (connections trace).length = state.created.length := by
  have lengths := (registryInv_of_server run).length
  simpa [ServerState.registry] using lengths.symm

/-- Nothing is handed over of a link that is not there. -/
theorem contentOf_absent (run : (serverMachine parse).Run .start trace state) {ref : LinkRef}
    (absent : state.created.length ≤ ref.index) : contentOf ref (callbackLog trace) = [] := by
  refine List.filterMap_eq_nil_iff.mpr fun report member => if_neg fun about => ?_
  have told : report ∈ (state.registry parse).told := by
    rw [told_of_run run]
    exact List.mem_append_left _ member
  have known := (registryInv_of_server run).known report told ref about
  simp only [ServerState.registry, List.length_mapIdx] at known
  omega

/-- In every run the application is handed the front of what a connection brings. -/
theorem handed_of_run (run : (serverMachine parse).Run .start trace state) (ref : LinkRef) :
    ContentHanded trace state ref (brought parse trace ref) := by
  cases accepted : (connections trace)[ref.index]? with
  | none =>
      have absent : state.created.length ≤ ref.index := by
        rw [← connections_length run]
        exact List.getElem?_eq_none_iff.mp accepted
      rw [brought, accepted]
      exact ⟨by rw [contentOf_absent run absent]; exact List.nil_prefix,
        fun _ => contentOf_absent run absent⟩
  | some connection =>
      obtain ⟨peer, looked, sees⟩ := (registryInv_of_server run).looked ref
        (brought parse trace ref) (by simp [accepted, brought])
      have handed : contentOf ref (logged trace state) = looked.filter Frame.isContent := by
        rw [← told_of_run run]
        exact sees.handed
      rw [logged, contentOf, List.filterMap_append] at handed
      constructor
      · have front : contentOf ref (callbackLog trace) <+: looked.filter Frame.isContent :=
          ⟨_, handed⟩
        rw [← sees.split, List.filter_append]
        exact front.trans (List.prefix_append _ _)
      · intro delivered
        have silent : callOf (state, .forward) = [] := callOf_idle (by simp [delivered.2.2])
        have read := inbox_of_delivered delivered sees.found
        rw [← sees.split, read, List.append_nil, ← handed, silent, List.filterMap_nil,
          List.append_nil]
        rfl

/-- In every run the closure is handed the content of every connection in order. -/
theorem content_handed (run : (serverMachine parse).Run .start trace state) {ref : LinkRef}
    {token : Token} {stream : TcpStream}
    (accepted : (connections trace)[ref.index]? = some (token, stream)) :
    ContentHanded trace state ref
      (Link.delivered parse token LinkFlags.none.bits stream) := by
  have handed := handed_of_run run ref
  rwa [brought, accepted] at handed

/-- The trace of `attachedThenHeaders`. -/
def headersTrace : List (ServerState × ServerLabel) :=
  (serverMachine fun _ => .incomplete).traceOf .start attachedThenHeaders

/-- The one frame of a connection is handed over. -/
theorem headersTrace_handed :
    ∃ state, (serverMachine fun _ => .incomplete).Run .start headersTrace state ∧
      (contentOf ⟨0⟩ (callbackLog headersTrace)).length = 1 ∧
      ContentHanded headersTrace state ⟨0⟩
        (Link.delivered (fun _ => .incomplete) ⟨7⟩ LinkFlags.none.bits headersPeer) := by
  obtain ⟨state, run, -⟩ := @Machine.run_of_exec_any _ _ (serverMachine fun _ => .incomplete)
    .start attachedThenHeaders (fun state => state.callbacks.length = 2) (by decide)
  exact ⟨state, run, by decide, content_handed run rfl⟩

/-- A link is found under a token exactly when the callbacks, and the one that is about to be made,
say that it stands there. -/
theorem findLink_of_callbacks (run : (serverMachine parse).Run .start trace state)
    (token : Token) :
    (state.findLink token).map Prod.fst = tableOf (logged trace state) token := by
  have table : state.links = tableOf (logged trace state) := by
    rw [← told_of_run run]
    exact (registryInv_of_server run).table
  obtain ⟨earlier, applied⟩ := (tokenInv_of_run run).applied
  rw [← table]
  cases listed : state.links token with
  | none => simp [ServerState.findLink, listed]
  | some ref =>
      obtain ⟨named, message, member, registers⟩ := applied.listed token ref listed
      have bound := (tokenInv_of_run run).known message
        (by simp [ServerState.history, applied.consumed, member]) ref registers
      obtain ⟨link, found⟩ := link_of_lt bound
      simp [ServerState.findLink, listed, found]

/-- The link that the table finds is the one that the callbacks name. -/
theorem headersTrace_found :
    ∃ state, (serverMachine fun _ => .incomplete).Run .start headersTrace state ∧
      (state.findLink ⟨7⟩).map Prod.fst = some ⟨0⟩ ∧
      (state.findLink ⟨7⟩).map Prod.fst = tableOf (logged headersTrace state) ⟨7⟩ := by
  obtain ⟨state, run, found⟩ := @Machine.run_of_exec_any _ _ (serverMachine fun _ => .incomplete)
    .start attachedThenHeaders (fun state => (state.findLink ⟨7⟩).map Prod.fst = some ⟨0⟩)
    (by decide)
  exact ⟨state, run, by simpa using found, findLink_of_callbacks run ⟨7⟩⟩

/-- The callbacks of a run: each about a link under its token, then the two of the end. -/
structure CallbacksClose (trace : List (ServerState × ServerLabel)) (state : ServerState) :
    Prop where
  told : ∀ call ∈ callbackLog trace, Told state call
  running : state.forward ≠ .exited → closing ∉ callbackLog trace
  exited : state.forward = .exited →
    ∃ earlier, callbackLog trace = earlier ++ [closing] ∧ closing ∉ earlier
  returned : state.main = .returned → ∃ earlier, closing ∉ earlier ∧
    callbackLog trace = earlier ++ [closing] ∧
    state.callbacks = (callbackLog trace).map Prod.snd ++ [.serverChanged .terminated]

/-- The end is told once, and last. -/
theorem closing_last (run : (serverMachine parse).Run .start trace state) :
    if state.forward.closed then
      ∃ earlier, logged trace state = earlier ++ [closing] ∧ closing ∉ earlier
    else closing ∉ logged trace state := by
  have closed := (registryInv_of_server run).closed
  rwa [told_of_run run] at closed

/-- Before the forward loop has left, its exit is not told. -/
theorem closing_unsaid (run : (serverMachine parse).Run .start trace state)
    (running : state.forward ≠ .exited) : closing ∉ callbackLog trace := by
  have last := closing_last run
  cases shut : state.forward.closed with
  | false =>
      rw [shut, if_neg Bool.false_ne_true] at last
      exact fun member => last (List.mem_append_left _ member)
  | true =>
      rw [shut, if_pos rfl] at last
      obtain ⟨earlier, split, fresh⟩ := last
      cases pc : state.forward with
      | calling tr final =>
          have call : callOf (state, .forward) =
              [(state.consumed.getLast?.bind Message.subject, tr)] := by
            simp [callOf, pc]
          rw [logged, call] at split
          obtain ⟨same, -⟩ := List.append_inj' split rfl
          rwa [same]
      | exited => exact absurd pc running
      | _ => rw [pc] at shut; cases shut

/-- Once it has left, its exit is told once, and last. -/
theorem closing_said (run : (serverMachine parse).Run .start trace state)
    (exited : state.forward = .exited) :
    ∃ earlier, callbackLog trace = earlier ++ [closing] ∧ closing ∉ earlier := by
  have last := closing_last run
  have silent : callOf (state, .forward) = [] := callOf_idle (by simp [exited])
  have shut : state.forward.closed = true := by
    rw [exited]
    rfl
  rwa [if_pos shut, logged, silent, List.append_nil] at last

/-- What the closure was called with was told of a link that exists. -/
theorem told_of_callback (run : (serverMachine parse).Run .start trace state) {call : Callback}
    (member : call ∈ callbackLog trace) : Told state call := by
  have reported : call ∈ (state.registry parse).told := by
    rw [told_of_run run]
    exact List.mem_append_left _ member
  obtain ⟨message, applied, reports⟩ := List.mem_filterMap.mp reported
  exact told_of_report (proper_of_reachable ⟨_, trace, rfl, run⟩ message
    (mem_history_of_applied applied)) reports

/-- In every run each callback is about a link, under its token, until the two of the end. -/
theorem callbacks_close (run : (serverMachine parse).Run .start trace state) :
    CallbacksClose trace state where
  told := fun _ member => told_of_callback run member
  running := closing_unsaid run
  exited := closing_said run
  returned := by
    intro returned
    have called := called_of_run run
    obtain ⟨earlier, split, fresh⟩ := closing_said run (called.returned returned)
    refine ⟨earlier, fresh, split, ?_⟩
    rw [called.called, if_pos returned]

/-- A client's SETTINGS frame is answered, the server is shut down, and its thread ends. -/
def shutAndReturned : List ServerLabel :=
  registeredFirst ++
    [.shutdown, .timeout, .announceExit, .forward, .forward, .forward, .main, .main]

/-- A link is attached and the server shut down, and the callbacks close. -/
theorem shutAndReturned_close :
    ∃ state trace, (serverMachine fun _ => .incomplete).Run .start trace state ∧
      state.main = .returned ∧ state.callbacks.length = 3 ∧ CallbacksClose trace state := by
  obtain ⟨state, run, returned⟩ := @Machine.run_of_exec_any _ _
    (serverMachine fun _ => .incomplete) .start shutAndReturned
    (fun state => state.main = .returned && state.callbacks.length == 3) (by decide)
  rw [Bool.and_eq_true, decide_eq_true_eq, beq_iff_eq] at returned
  exact ⟨state, _, run, returned.1, returned.2, callbacks_close run⟩

end H2l
