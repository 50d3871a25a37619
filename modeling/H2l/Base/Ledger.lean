import H2l.Base.Machine

/-!
# What goes through a queue

A `Ledger` says what every step of a machine puts at the end of a queue and what it
takes from the front. Along a run nothing is lost, doubled or overtaken: what was put
is what was taken, in the same order, and then what still waits (`Run.ledger`).
-/

namespace Base

namespace Machine

variable {State Label α : Type} {machine : Machine State Label}

/-- Every step takes items from the front of the queue and puts items at its end. -/
structure Ledger (machine : Machine State Label) (queue : State → List α)
    (puts takes : State × Label → List α) : Prop where
  balanced : ∀ {state label next}, machine.Reachable state →
    machine.step state label = some next →
      queue state ++ puts (state, label) = takes (state, label) ++ queue next

section Balance

variable {queue : State → List α} {puts takes : State × Label → List α} {start state : State}
  {trace : List (State × Label)}

/-- What waited at the start and was put since is what was taken and what waits now. -/
theorem Run.ledger (ledger : machine.Ledger queue puts takes) (valid : machine.initial start)
    (run : machine.Run start trace state) :
    queue start ++ trace.flatMap puts = trace.flatMap takes ++ queue state := by
  induction run with
  | nil => simp
  | @snoc trace before label next prior taken ih =>
      simp only [List.flatMap_append, List.flatMap_singleton]
      calc queue start ++ (trace.flatMap puts ++ puts (before, label))
          = trace.flatMap takes ++ (queue before ++ puts (before, label)) := by
            rw [← List.append_assoc, ih, List.append_assoc]
        _ = (trace.flatMap takes ++ takes (before, label)) ++ queue next := by
            rw [ledger.balanced ⟨start, trace, valid, prior⟩ taken, List.append_assoc]

/-- From an empty queue, what was taken came first among what was put. -/
theorem Run.ledger_front (ledger : machine.Ledger queue puts takes)
    (valid : machine.initial start) (run : machine.Run start trace state)
    (empty : queue start = []) : trace.flatMap takes <+: trace.flatMap puts := by
  have whole := run.ledger ledger valid
  rw [empty, List.nil_append] at whole
  exact ⟨queue state, whole.symm⟩

/-- A queue that is empty again has given everything that was put. -/
theorem Run.ledger_empty (ledger : machine.Ledger queue puts takes)
    (valid : machine.initial start) (run : machine.Run start trace state)
    (empty : queue start = []) (drained : queue state = []) :
    trace.flatMap puts = trace.flatMap takes := by
  have whole := run.ledger ledger valid
  rwa [empty, drained, List.nil_append, List.append_nil] at whole

end Balance

/-- What every step does to a state, if it composes, is done between any two states of a run. -/
theorem Run.follows {follows : State → State → Prop} {start state : State}
    {trace : List (State × Label)} (valid : machine.initial start)
    (run : machine.Run start trace state)
    (trans : ∀ {first second third}, follows first second → follows second third →
      follows first third)
    (steps : ∀ {before label after}, machine.Reachable before →
      machine.step before label = some after → follows before after) :
    (∀ taken ∈ trace, follows taken.1 state) ∧
      trace.Pairwise fun earlier later => follows earlier.1 later.1 := by
  induction run with
  | nil => exact ⟨fun taken member => absurd member List.not_mem_nil, .nil⟩
  | @snoc trace before label after prior taken ih =>
      obtain ⟨reached, pairs⟩ := ih
      have last := steps ⟨start, trace, valid, prior⟩ taken
      constructor
      · intro earlier member
        rcases List.mem_append.mp member with old | new
        · exact trans (reached earlier old) last
        · obtain rfl := List.mem_singleton.mp new
          exact last
      · refine List.pairwise_append.mpr ⟨pairs, List.pairwise_singleton _ _, ?_⟩
        intro earlier member later new
        obtain rfl := List.mem_singleton.mp new
        exact reached earlier member

end Machine

end Base
