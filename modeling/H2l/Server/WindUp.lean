import H2l.Server.Settling
import H2l.Server.Shutdown

/-!
# The winding up of a server

`Server::shutdown` only stores `exit_accept_loop`, which the accept loop tests when no
connection has come for a while. `server_winds_up` says what follows: one such timeout at
most, boundedly many steps for what the network still brings, and an end.
`shutdown_starves` says what does not: while connections keep coming, the accept loop goes on
accepting them.
-/

namespace H2l

open Base

namespace ServerLabel

/-- A step of user code. -/
def asks : ServerLabel → Bool
  | shutdown | find _ | drop _ | send _ _ | sendTo _ _ => true
  | _ => false

/-- A timeout of the accept loop. -/
def timeouts : ServerLabel → Nat
  | timeout => 1
  | _ => 0

/-- A step of a task, the network or the clock. -/
def counts (label : ServerLabel) : Nat := if label.asks then 0 else 1

/-- The steps that a label makes necessary: for a new link and its input, and for a transaction of
user code. -/
def brings : ServerLabel → Nat
  | connect _ stream => stream.input.content.length + 33
  | send _ _ | sendTo _ _ => 2
  | _ => 0

end ServerLabel

namespace AcceptPc

/-- The timeouts that are still met once `exit_accept_loop` is set. -/
def timeouts : AcceptPc → Nat
  | binding | accepting | registering _ => 1
  | announcing | returned => 0

/-- The steps up to the return of the accept loop and its last message. -/
def windUp : AcceptPc → Nat
  | binding => 10
  | accepting | registering _ => 9
  | announcing | returned => 0

end AcceptPc

/-- What goes on without new connections and without user code, on a listener that can be bound. -/
def ServerLabel.WindsUp : ServerLabel → Prop
  | connect _ _ | bind false => False
  | label => label.asks = false

/-- A server whose `exit_accept_loop` is set. -/
structure ServerWindsUp (parse : HttpParser) (trace : List (ServerState × ServerLabel))
    (state : ServerState) : Prop where
  cause : ∃ taken ∈ trace, taken.2 = .shutdown
  timeouts : ∀ further final, (serverMachine parse).Run state further final →
    total (fun taken => taken.2.timeouts) further ≤ state.accept.timeouts
  bounded : ∀ further final, (serverMachine parse).Run state further final →
    total (fun taken => taken.2.counts) further ≤
      state.work + state.accept.windUp + total (fun taken => taken.2.brings) further
  /-- Whatever happens first, the thread can be joined in the end, unless the forward loop has
  unwound or the listener was not bound. -/
  ends : ∀ further final, (serverMachine parse).Run state further final →
    ∃ last stopped, (serverMachine parse).Run final last stopped ∧
      (∀ taken ∈ last, taken.2.WindsUp) ∧
      (stopped.main = .returned ∨ stopped.forward = .panicked ∨ Silent stopped)

variable {parse : HttpParser} {state after : ServerState} {label : ServerLabel}
  {trace : List (ServerState × ServerLabel)}

/-- What a step makes of a server whose `exit_accept_loop` is set. -/
structure Winding (state : ServerState) (label : ServerLabel) (after : ServerState) : Prop where
  asked : after.exitAcceptLoop
  timeouts : label.timeouts + after.accept.timeouts ≤ state.accept.timeouts
  spent : label.counts + (after.work + after.accept.windUp) ≤
    state.work + state.accept.windUp + label.brings

/-- The accept loop is no further from its return. -/
structure Nearer (state after : ServerState) : Prop where
  exits : after.exitAcceptLoop = state.exitAcceptLoop
  timeouts : after.accept.timeouts ≤ state.accept.timeouts
  windUp : after.accept.windUp ≤ state.accept.windUp

/-- What a step of user code leaves, and what it sends at most. -/
structure Asked (state : ServerState) (label : ServerLabel) (after : ServerState) : Prop where
  exits : after.exitAcceptLoop = state.exitAcceptLoop ∨ label = .shutdown ∧ after.exitAcceptLoop
  accept : after.accept = state.accept
  work : after.work ≤ state.work + label.brings

theorem nearer_of_kept (exits : after.exitAcceptLoop = state.exitAcceptLoop)
    (accept : after.accept = state.accept) : Nearer state after :=
  ⟨exits, Nat.le_of_eq (congrArg _ accept), Nat.le_of_eq (congrArg _ accept)⟩

theorem HandleMove.exits {tr : Transaction} (move : HandleMove state tr after) :
    after.exitAcceptLoop = state.exitAcceptLoop := by
  cases move <;> rfl

theorem ForwardTurn.exits (turn : ForwardTurn state after) :
    after.exitAcceptLoop = state.exitAcceptLoop := by
  cases turn with
  | handled pc move | acknowledged pc move => exact move.exits
  | received | called => rfl

/-- The tasks do not set `exit_accept_loop`, nor do they take the accept loop back. -/
theorem nearer_of_works (taken : (serverMachine parse).step state label = some after)
    (works : label.Works) : Nearer state after := by
  cases label with
  | read ref | write ref =>
      cases step_move taken with
      | looped mover step =>
          refine nearer_of_kept ?_ step.frame.accept
          cases step
          rfl
      | acceptor idle => cases idle
      | user idle => cases idle
  | forward =>
      have turn := forward_turn (forward_move taken)
      exact nearer_of_kept turn.exits turn.acceptor.1
  | main =>
      simp only [serverMachine, ServerState.step, ServerState.acceptStep, ServerState.userStep,
        Option.or_none] at taken
      split at taken
      · split at taken <;> cases taken
        exact nearer_of_kept rfl rfl
      · split at taken <;> cases taken
        exact nearer_of_kept rfl rfl
      · cases taken
  | register | announceExit =>
      simp only [serverMachine, ServerState.step, ServerState.acceptStep, ServerState.userStep,
        Option.or_none] at taken
      split at taken
      next place =>
        obtain ⟨sent, sends, rfl⟩ := Option.map_eq_some_iff.mp taken
        obtain ⟨channel, rfl, -⟩ := enqueue_eq sends
        exact ⟨rfl, by rw [place]; exact Nat.le_refl _, by rw [place]; exact Nat.le_refl _⟩
      next => cases taken
  | _ => exact works.elim

/-- A transaction that user code sends to a link. -/
theorem sent_work {ref : LinkRef} {link next : LinkState} {tr : Transaction}
    (found : state.link ref = some link) (sends : link.send tr = .ok next) :
    (state.setLink ref next).work = state.work + 2 := by
  have links := total_set LinkState.work found next
  rw [send_work sends] at links
  simp only [ServerState.work, ServerState.setLink]
  omega

/-- User code sends to one link at most. -/
theorem asked_of_user (taken : (serverMachine parse).step state label = some after)
    (asks : label.asks) : Asked state label after := by
  cases label with
  | shutdown =>
      cases taken
      exact ⟨.inr ⟨rfl, rfl⟩, rfl, Nat.le_refl _⟩
  | find token =>
      obtain ⟨_, -, rfl⟩ := Option.map_eq_some_iff.mp taken
      exact ⟨.inl rfl, rfl, Nat.le_refl _⟩
  | drop ref =>
      simp only [serverMachine, ServerState.step, ServerState.acceptStep, ServerState.userStep,
        Option.none_or] at taken
      split at taken <;> cases taken
      exact ⟨.inl rfl, rfl, Nat.le_refl _⟩
  | send ref tr =>
      simp only [serverMachine, ServerState.step, ServerState.acceptStep, ServerState.userStep,
        Option.none_or] at taken
      split at taken
      next =>
        obtain ⟨link, found, rfl⟩ := Option.map_eq_some_iff.mp taken
        split
        next next sends => exact ⟨.inl rfl, rfl, Nat.le_of_eq (sent_work found sends)⟩
        next => exact ⟨.inl rfl, rfl, Nat.le_add_right _ _⟩
      next => cases taken
  | sendTo token tr =>
      simp only [serverMachine, ServerState.step, ServerState.acceptStep, ServerState.userStep,
        Option.none_or] at taken
      split at taken
      next sent sends =>
        cases taken
        obtain ⟨ref, link, next, -, found, queues, rfl⟩ := sendTo_ok sends
        exact ⟨.inl rfl, rfl, Nat.le_of_eq (sent_work found queues)⟩
      next =>
        cases taken
        exact ⟨.inl rfl, rfl, Nat.le_add_right _ _⟩
  | _ => cases asks

/-- What the network and the clock do to the accept loop. -/
inductive ClockMove (state : ServerState) : ServerLabel → ServerState → Prop where
  | bound {succeeded} (pc : state.accept = .binding) : ClockMove state (.bind succeeded)
      { state with accept := if succeeded then .accepting else .returned }
  | connected {token stream} (pc : state.accept = .accepting) :
      ClockMove state (.connect token stream) { state with
        created := state.created ++ [.new token stream]
        accept := .registering ⟨state.created.length⟩ }
  | ended (pc : state.accept = .accepting) :
      ClockMove state .endAccept { state with accept := .announcing }
  | timedOut (pc : state.accept = .accepting) : ClockMove state .timeout
      { state with accept := if state.exitAcceptLoop then .announcing else .accepting }

theorem clockMove_of_step (taken : (serverMachine parse).step state label = some after)
    (idle : ¬ label.Works) (silent : ¬ label.asks) : ClockMove state label after := by
  cases label with
  | bind =>
      simp only [serverMachine, ServerState.step, ServerState.acceptStep, ServerState.userStep,
        Option.or_none] at taken
      split at taken <;> cases taken
      next pc => exact .bound pc
  | connect =>
      simp only [serverMachine, ServerState.step, ServerState.acceptStep, ServerState.userStep,
        Option.or_none] at taken
      split at taken <;> cases taken
      next pc => exact .connected pc.1
  | endAccept =>
      simp only [serverMachine, ServerState.step, ServerState.acceptStep, ServerState.userStep,
        Option.or_none] at taken
      split at taken <;> cases taken
      next pc => exact .ended pc
  | timeout =>
      simp only [serverMachine, ServerState.step, ServerState.acceptStep, ServerState.userStep,
        Option.or_none] at taken
      split at taken <;> cases taken
      next pc => exact .timedOut pc
  | shutdown | find | drop | send | sendTo => exact absurd rfl silent
  | _ => exact absurd trivial idle

/-- Once its exit is asked for, the accept loop does not go back. -/
theorem ClockMove.winding (move : ClockMove state label after) (asked : state.exitAcceptLoop) :
    Winding state label after := by
  cases move with
  | @bound succeeded pc =>
      refine ⟨asked, ?_, ?_⟩
      · cases succeeded <;> simp [pc, ServerLabel.timeouts, AcceptPc.timeouts]
      · cases succeeded <;> simp [ServerState.work, pc, AcceptPc.work, AcceptPc.windUp,
          ServerLabel.counts, ServerLabel.asks] <;> omega
  | connected pc =>
      refine ⟨asked, by rw [pc]; exact Nat.le_refl _, ?_⟩
      simp [ServerState.work, pc, AcceptPc.work, AcceptPc.windUp, ServerLabel.counts,
        ServerLabel.asks, ServerLabel.brings, LinkState.new, LinkState.work, ReaderPc.work,
        WriterPc.work, total, Channel.empty]
      omega
  | ended pc =>
      refine ⟨asked, by simp [pc, ServerLabel.timeouts, AcceptPc.timeouts], ?_⟩
      simp [ServerState.work, pc, AcceptPc.work, AcceptPc.windUp, ServerLabel.counts,
        ServerLabel.asks]
      omega
  | timedOut pc =>
      rw [if_pos asked]
      refine ⟨asked, by simp [pc, ServerLabel.timeouts, AcceptPc.timeouts], ?_⟩
      simp [ServerState.work, pc, AcceptPc.work, AcceptPc.windUp, ServerLabel.counts,
        ServerLabel.asks]
      omega

/-- Every step but those of user code takes work away, up to what a connection brings. -/
theorem winding_of_step (asked : state.exitAcceptLoop)
    (taken : (serverMachine parse).step state label = some after) : Winding state label after := by
  by_cases works : label.Works
  · have nearer := nearer_of_works taken works
    have smaller := server_shrinks parse works taken
    have counted : label.counts ≤ 1 := by
      unfold ServerLabel.counts
      split <;> simp
    have quiet : label.timeouts = 0 := by
      cases label with
      | timeout => exact works.elim
      | _ => rfl
    have fewer := nearer.timeouts
    have further := nearer.windUp
    exact ⟨nearer.exits.trans asked, by omega, by omega⟩
  · by_cases asks : label.asks
    · have sent := asked_of_user taken asks
      have free : label.counts = 0 := if_pos asks
      have quiet : label.timeouts = 0 := by
        cases label with
        | timeout => cases asks
        | _ => rfl
      have work := sent.work
      exact ⟨sent.exits.elim (·.trans asked) (·.2), by rw [sent.accept, quiet]; omega,
        by rw [sent.accept, free]; omega⟩
    · exact (clockMove_of_step taken works asks).winding asked

/-- Every timeout of the accept is one of those that remain. -/
theorem timeouts_pay (parse : HttpParser) :
    (serverMachine parse).Pays (fun _ _ => True) (fun state => state.exitAcceptLoop)
      ServerLabel.timeouts (fun _ => 0) (fun state => state.accept.timeouts) := by
  intro state label after asked _ taken
  have winding := winding_of_step asked taken
  exact ⟨winding.asked, winding.timeouts⟩

/-- Every counted step is paid for by the work, or by what a peer brings. -/
theorem server_windUp_pays (parse : HttpParser) :
    (serverMachine parse).Pays (fun _ _ => True) (fun state => state.exitAcceptLoop)
      ServerLabel.counts ServerLabel.brings
      (fun state => state.work + state.accept.windUp) := by
  intro state label after asked _ taken
  have winding := winding_of_step asked taken
  exact ⟨winding.asked, winding.spent⟩

/-- Only `Server::shutdown` sets `exit_accept_loop`. -/
theorem shutdown_of_run (run : (serverMachine parse).Run .start trace state) :
    state.exitAcceptLoop → ∃ taken ∈ trace, taken.2 = .shutdown := by
  induction run with
  | nil => exact nofun
  | @snoc trace before label after prior taken ih =>
      intro asked
      have same : after.exitAcceptLoop = before.exitAcceptLoop ∨ label = .shutdown := by
        by_cases works : label.Works
        · exact .inl (nearer_of_works taken works).exits
        · by_cases asks : label.asks
          · exact (asked_of_user taken asks).exits.imp id (·.1)
          · cases clockMove_of_step taken works asks <;> exact .inl rfl
      rcases same with same | rfl
      · obtain ⟨step, member, shuts⟩ := ih (same ▸ asked)
        exact ⟨step, List.mem_append_left _ member, shuts⟩
      · exact ⟨_, List.mem_append_right _ (List.mem_singleton_self _), rfl⟩

/-- A forward loop that has not unwound leaves on the exit message only. -/
theorem good_or_panicked (run : (serverMachine parse).Run .start trace state) :
    ForwardGood state ∨ state.forward = .panicked := by
  induction run with
  | nil => exact .inl (forwardGood_of_staying (.inl rfl))
  | @snoc trace before label after prior taken ih =>
      by_cases forward : label = .forward
      · subst forward
        rcases ih with good | panicked
        · by_cases arrives : ∀ token ∈ before.forward.unwraps, before.canSend token
          · exact .inl (forwardGood_move good arrives (forward_move taken))
          · exact .inr (panics_of_move arrives (forward_move taken))
        · simp [serverMachine, ServerState.step, ServerState.forwardStep, panicked] at taken
      · have kept := (step_effect taken forward).2
        exact ih.imp (forwardGood_of_kept · kept) (kept.forward.trans ·)

/-- Every run keeps what is known of the exit messages. -/
theorem exitInv_of_run (run : (serverMachine parse).Run .start trace state) : ExitInv state := by
  induction run with
  | nil => exact exitInv_start
  | snoc prior taken ih => exact exitInv_of_step ih taken

/-- The forward loop returns after the accept loop. -/
theorem returned_of_exited (run : (serverMachine parse).Run .start trace state)
    (exited : state.forward = .exited) : state.accept = .returned := by
  rcases good_or_panicked run with good | panicked
  · obtain ⟨message, member, exits⟩ := good.leaving (.inl exited)
    refine (exitInv_of_run run).returned message (List.mem_append_left _ member) ?_
    rw [Transaction.exits, exits]
    rfl
  · rw [exited] at panicked
    cases panicked

/-- `Server::start` waits for nothing but the two loops. -/
theorem returned_of_joined (exited : state.forward = .exited) (returned : state.accept = .returned)
    (joins : (serverMachine parse).step state .main = none) : state.main = .returned := by
  cases place : state.main with
  | returned => rfl
  | awaitingForward =>
      simp [serverMachine, ServerState.step, ServerState.acceptStep, ServerState.userStep, place,
        exited] at joins
  | awaitingAccept =>
      simp [serverMachine, ServerState.step, ServerState.acceptStep, ServerState.userStep, place,
        returned] at joins

/-- Where the accept loop of a settled server waits for nothing, it has returned without a word. -/
theorem silent_of_settled (run : (serverMachine parse).Run .start trace state)
    (settled : Settled state) (binds : (serverMachine parse).step state (.bind true) = none)
    (expires : (serverMachine parse).step state .timeout = none) : Silent state where
  returned := by
    have idle := settled.accept
    cases place : state.accept with
    | returned => rfl
    | binding =>
        simp [serverMachine, ServerState.step, ServerState.acceptStep, ServerState.userStep,
          place] at binds
    | accepting =>
        simp [serverMachine, ServerState.step, ServerState.acceptStep, ServerState.userStep,
          place] at expires
    | registering | announcing =>
        rw [place] at idle
        cases idle
  unsent message member := by
    rw [ServerState.history, settled.channel, List.append_nil] at member
    refine Bool.eq_false_iff.mpr fun exits => ?_
    rcases (exitInv_of_run run).leaves message member exits with leaves | panicked
    · rw [settled.forward] at leaves
      cases leaves
    · rw [settled.forward] at panicked
      cases panicked

/-- A server that goes nowhere without the network and user code has returned, unless its forward
loop has unwound or its listener was not bound. -/
theorem stopped_of_atRest (run : (serverMachine parse).Run .start trace state)
    (rests : (serverMachine parse).AtRest ServerLabel.WindsUp state) :
    state.main = .returned ∨ state.forward = .panicked ∨ Silent state := by
  have works : (serverMachine parse).AtRest ServerLabel.Works state := by
    intro label works
    refine rests label ?_
    cases label with
    | read | write | forward | register | announceExit | main => rfl
    | _ => exact works.elim
  rcases settled_of_atRest works with exited | panicked | settled
  · exact .inl (returned_of_joined exited (returned_of_exited run exited) (works .main trivial))
  · exact .inr (.inl panicked)
  · exact .inr (.inr (silent_of_settled run settled (rests (.bind true) rfl) (rests .timeout rfl)))

/-- In every run, a server that has been asked to shut down meets one timeout at most, takes
boundedly many steps for what the network and user code still bring, and comes to its end when
they bring no more. -/
theorem server_winds_up (run : (serverMachine parse).Run .start trace state)
    (asked : state.exitAcceptLoop) : ServerWindsUp parse trace state where
  cause := shutdown_of_run run asked
  timeouts further final onward := by
    have paid := (onward.account (timeouts_pay parse) (fun _ _ => trivial) asked).2
    rw [total_const, Nat.zero_mul] at paid
    omega
  bounded further final onward := by
    have paid := (onward.account (server_windUp_pays parse) (fun _ _ => trivial) asked).2
    omega
  ends further final onward := by
    have still := (onward.account (timeouts_pay parse) (fun _ _ => trivial) asked).1
    have progress : ∀ state : ServerState, state.exitAcceptLoop →
        ¬ (serverMachine parse).AtRest ServerLabel.WindsUp state → ∃ label next,
          ServerLabel.WindsUp label ∧ (serverMachine parse).step state label = some next ∧
            next.exitAcceptLoop ∧
              next.work + next.accept.windUp < state.work + state.accept.windUp := by
      intro state asked moves
      simp only [Machine.AtRest, Classical.not_forall] at moves
      obtain ⟨label, winds, steps⟩ := moves
      obtain ⟨after, taken⟩ := Option.ne_none_iff_exists'.mp steps
      have winding := winding_of_step asked taken
      have spent := winding.spent
      have costs : label.counts = 1 ∧ label.brings = 0 := by
        cases label with
        | connect => exact winds.elim
        | shutdown | find | drop | send | sendTo => cases winds
        | _ => exact ⟨rfl, rfl⟩
      rw [costs.1, costs.2] at spent
      exact ⟨label, after, winds, taken, winding.asked, by omega⟩
    obtain ⟨last, stopped, ends, only, rests⟩ :=
      @Machine.leads_to_rest _ _ _ _ (fun state => state.work + state.accept.windUp) _ _
        progress final still
    exact ⟨last, stopped, ends, only, stopped_of_atRest ((run.append onward).append ends) rests⟩

/-- A server is asked to shut down once it has answered a client. -/
def shutWaiting : List ServerLabel := registeredFirst ++ [.shutdown]

/-- The trace of `shutWaiting`. -/
def waitingTrace : List (ServerState × ServerLabel) :=
  (serverMachine fun _ => .incomplete).traceOf .start shutWaiting

/-- A server with a connection is shut down, and winds up at the next timeout. -/
theorem waitingTrace_windsUp :
    ∃ state, (serverMachine fun _ => .incomplete).Run .start waitingTrace state ∧
      state.created.length = 1 ∧ state.accept.timeouts = 1 ∧
      ServerWindsUp (fun _ => .incomplete) waitingTrace state := by
  obtain ⟨state, run, shut⟩ := @Machine.run_of_exec_any _ _ (serverMachine fun _ => .incomplete)
    .start shutWaiting (fun state => state.exitAcceptLoop && state.created.length == 1 &&
      state.accept.timeouts == 1) (by decide)
  simp only [Bool.and_eq_true, beq_iff_eq] at shut
  exact ⟨state, run, shut.1.2, shut.2, server_winds_up run shut.1.1⟩

/-- The accept loop waits for a connection, and the forward loop has nothing to do. -/
structure Welcoming (state : ServerState) : Prop where
  accept : state.accept = .accepting
  forward : state.forward = .receiving
  channel : state.channel.items = []

/-- No timeout was met. -/
def Unpaused (trace : List (ServerState × ServerLabel)) : Prop :=
  ∀ taken ∈ trace, taken.2 ≠ .timeout

/-- Some token is free. -/
theorem exists_tokenFree (state : ServerState) : ∃ token, state.tokenFree token := by
  refine ⟨⟨total (fun link => link.token.raw) state.created + 1⟩, ?_⟩
  simp only [ServerState.tokenFree, List.all_eq_true, List.mem_range]
  intro index within
  have found : state.link ⟨index⟩ = some state.created[index] := List.getElem?_eq_getElem within
  have below := le_total (fun link : LinkState => link.token.raw) (List.getElem_mem within)
  have apart : state.tokenOf ⟨index⟩ ≠ ⟨total (fun link => link.token.raw) state.created + 1⟩ := by
    intro same
    rw [ServerState.tokenOf, found] at same
    simp only [Option.map_some, Option.getD_some] at same
    rw [same] at below
    exact Nat.lt_irrefl _ below
  simp [apart]

/-- Each of the streams was accepted under a token, its link stands in the table, and the closure
was told so. -/
structure Attaches (state final : ServerState) (streams : List TcpStream) (tokens : List Token) :
    Prop where
  created : final.created = state.created ++ List.zipWith LinkState.new tokens streams
  each : tokens.length = streams.length
  told : final.callbacks = state.callbacks ++ tokens.map (.linkChanged .attached)
  listed : ∀ ref : LinkRef, state.created.length ≤ ref.index →
    ref.index < final.created.length → final.lists ref
  kept : ∀ ref : LinkRef, ref.index < state.created.length → state.lists ref → final.lists ref

/-- Nobody connects, and nothing changes. -/
theorem Attaches.refl (state : ServerState) : Attaches state state [] [] where
  created := (List.append_nil _).symm
  each := rfl
  told := (List.append_nil _).symm
  listed _ new known := absurd known (Nat.not_lt_of_le new)
  kept _ _ listed := listed

/-- Connections that are attached one after another. -/
theorem Attaches.trans {middle final : ServerState} {first rest : List TcpStream}
    {one more : List Token} (earlier : Attaches state middle first one)
    (later : Attaches middle final rest more) :
    Attaches state final (first ++ rest) (one ++ more) := by
  have grows : state.created.length ≤ middle.created.length := by simp [earlier.created]
  refine ⟨?_, ?_, ?_, fun ref new known => ?_, fun ref known listed => ?_⟩
  · rw [later.created, earlier.created, List.append_assoc,
      List.zipWith_append earlier.each]
  · rw [List.length_append, List.length_append, earlier.each, later.each]
  · rw [later.told, earlier.told, List.map_append, List.append_assoc]
  · by_cases old : ref.index < middle.created.length
    · exact later.kept ref old (earlier.listed ref new old)
    · exact later.listed ref (Nat.le_of_not_lt old) known
  · exact later.kept ref (Nat.lt_of_lt_of_le known grows) (earlier.kept ref known listed)

/-- A link that is accepted under a free token and registered takes no other's place. -/
theorem attaches_of_registered {token : Token} {stream : TcpStream} {final : ServerState}
    (free : state.tokenFree token) (created : final.created = state.created ++ [.new token stream])
    (links : final.links = fun other =>
      if other = token then some ⟨state.created.length⟩ else state.links other)
    (told : final.callbacks = state.callbacks ++ [.linkChanged .attached token]) :
    Attaches state final [stream] [token] := by
  have own : final.tokenOf ⟨state.created.length⟩ = token := by
    simp [ServerState.tokenOf, ServerState.link, created, LinkState.new]
  refine ⟨created, rfl, told, fun ref new known => ?_, fun ref known listed => ?_⟩
  · obtain rfl : ref = ⟨state.created.length⟩ := by
      rw [created, List.length_append, List.length_singleton] at known
      exact congrArg LinkRef.mk (by omega : ref.index = state.created.length)
    rw [ServerState.lists, own, links]
    exact beq_iff_eq.mpr (if_pos rfl)
  · have same : final.tokenOf ref = state.tokenOf ref := by
      rw [ServerState.tokenOf, ServerState.tokenOf, ServerState.link, ServerState.link, created,
        List.getElem?_append_left known]
    have apart : state.tokenOf ref ≠ token := by
      intro taken
      simp only [ServerState.tokenFree, List.all_eq_true, List.mem_range] at free
      have held : state.isHeld ref := by
        rw [ServerState.lists] at listed
        simp [ServerState.isHeld, listed]
      simpa [taken, held] using free ref.index known
    rw [ServerState.lists, beq_iff_eq] at listed
    rw [ServerState.lists, same, links]
    exact beq_iff_eq.mpr ((if_neg apart).trans listed)

/-- One more connection is accepted, registered and attached. -/
theorem welcomes_again (parse : HttpParser) (welcoming : Welcoming state) (stream : TcpStream) :
    ∃ further final token, (serverMachine parse).Run state further final ∧ Unpaused further ∧
      Welcoming final ∧ final.exitAcceptLoop = state.exitAcceptLoop ∧
      Attaches state final [stream] [token] := by
  obtain ⟨token, free⟩ := exists_tokenFree state
  let accepted : ServerState := { state with
    created := state.created ++ [.new token stream]
    accept := .registering ⟨state.created.length⟩ }
  have connects : (serverMachine parse).step state (.connect token stream) = some accepted := by
    simp [serverMachine, ServerState.step, ServerState.acceptStep, welcoming.accept, free, accepted]
  obtain ⟨channel, sends, items⟩ := Channel.trySend_of_lt
    (⟨.newLink ⟨state.created.length⟩, none⟩ : Message)
    (show state.channel.items.length < 4096 by rw [welcoming.channel]; decide)
  let registered : ServerState := { accepted with channel, accept := .accepting }
  have registers : (serverMachine parse).step accepted .register = some registered := by
    simp [serverMachine, ServerState.step, ServerState.acceptStep, ServerState.enqueue, sends,
      accepted, registered]
  rw [welcoming.channel, List.nil_append] at items
  obtain ⟨emptied, receives, drained⟩ := Channel.recv_of_items items
  let received : ServerState := { registered with
    channel := emptied
    forward := .handling ⟨.newLink ⟨state.created.length⟩, none⟩
    consumed := state.consumed ++ [⟨.newLink ⟨state.created.length⟩, none⟩] }
  have takes : (serverMachine parse).step registered .forward = some received := by
    simp [serverMachine, ServerState.step, ServerState.forwardStep, welcoming.forward, receives,
      accepted, registered, received]
  let attached := received.handle (.newLink ⟨state.created.length⟩)
  have attaches : (serverMachine parse).step received .forward = some attached := rfl
  have calls : (serverMachine parse).step attached .forward = some { attached with
      callbacks := attached.callbacks ++
        [.linkChanged .attached (received.tokenOf ⟨state.created.length⟩)]
      forward := .receiving } := rfl
  have own : received.tokenOf ⟨state.created.length⟩ = token := by
    simp [ServerState.tokenOf, ServerState.link, LinkState.new, accepted, registered, received]
  refine ⟨_, _, token, ((((Machine.Run.single connects).snoc registers).snoc takes).snoc
    attaches).snoc calls, ?_, ⟨rfl, rfl, drained⟩, rfl, attaches_of_registered free rfl ?_ ?_⟩
  · simp [Unpaused]
  · rw [← own]
    rfl
  · rw [own]
    rfl

/-- From every state in which the accept loop waits and the forward loop has nothing to do, any
connections are accepted, registered and attached one after another without a timeout, whether or
not the server has been asked to shut down. -/
theorem shutdown_starves (parse : HttpParser) (welcoming : Welcoming state)
    (streams : List TcpStream) :
    ∃ further final tokens, (serverMachine parse).Run state further final ∧ Unpaused further ∧
      Welcoming final ∧ final.exitAcceptLoop = state.exitAcceptLoop ∧
      Attaches state final streams tokens := by
  induction streams generalizing state with
  | nil =>
      exact ⟨[], state, [], .nil, fun _ member => absurd member List.not_mem_nil, welcoming, rfl,
        .refl state⟩
  | cons stream rest ih =>
      obtain ⟨first, next, token, run, unpaused, still, exits, accepted⟩ :=
        welcomes_again parse welcoming stream
      obtain ⟨further, final, tokens, onward, also, ends, same, all⟩ := ih still
      refine ⟨first ++ further, final, token :: tokens, run.append onward, ?_, ends,
        same.trans exits, accepted.trans all⟩
      intro taken member
      exact (List.mem_append.mp member).elim (unpaused taken) (also taken)

/-- Two more peers connect to a server that was shut down, and it goes on. -/
theorem waitingTrace_starves :
    ∃ state, (serverMachine fun _ => .incomplete).Run .start waitingTrace state ∧
      state.exitAcceptLoop ∧ ∃ further final tokens,
        (serverMachine fun _ => .incomplete).Run state further final ∧ Unpaused further ∧
        Welcoming final ∧ final.exitAcceptLoop = state.exitAcceptLoop ∧
        Attaches state final [settingsPeer, silentPeer] tokens := by
  obtain ⟨state, run, waits⟩ := @Machine.run_of_exec_any _ _ (serverMachine fun _ => .incomplete)
    .start shutWaiting (fun state => state.exitAcceptLoop && decide (state.accept = .accepting) &&
      decide (state.forward = .receiving) && decide (state.channel.items = [])) (by decide)
  simp only [Bool.and_eq_true, decide_eq_true_eq] at waits
  obtain ⟨⟨⟨asked, accept⟩, forward⟩, channel⟩ := waits
  exact ⟨state, run, asked, shutdown_starves _ ⟨accept, forward, channel⟩ _⟩

end H2l
