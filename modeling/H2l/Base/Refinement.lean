import H2l.Base.Machine

/-!
# Machines seen as simpler machines

A `Refinement` maps the states of a machine to those of an abstract one, so that every
step is seen as one abstract step or as none. A run is then seen as an abstract run
(`Refinement.run`), and what holds of every abstract run holds of what is seen.
-/

namespace Base

namespace Machine

variable {State Label View Event : Type}

/-- One step for an event, none without one. -/
def attempt (machine : Machine View Event) (view : View) : Option Event → Option View
  | some event => machine.step view event
  | none => some view

/-- Every step from a reachable state is seen as an abstract step, or leaves what is seen as
it was. -/
structure Refinement (concrete : Machine State Label) (abstract : Machine View Event) where
  view : State → View
  event : State → Label → Option Event
  initial : ∀ {state}, concrete.initial state → abstract.initial (view state)
  step : ∀ {state label next}, concrete.Reachable state → concrete.step state label = some next →
    abstract.attempt (view state) (event state label) = some (view next)

namespace Refinement

variable {concrete : Machine State Label} {abstract : Machine View Event}
  (refinement : Refinement concrete abstract) {start state : State} {trace : List (State × Label)}

/-- How a step is seen. -/
def image (taken : State × Label) : Option (View × Event) :=
  (refinement.event taken.1 taken.2).map fun event => (refinement.view taken.1, event)

/-- A run from an initial state is seen as an abstract run from one. -/
theorem run (initial : concrete.initial start) (run : concrete.Run start trace state) :
    abstract.initial (refinement.view start) ∧
      abstract.Run (refinement.view start) (trace.filterMap refinement.image)
        (refinement.view state) := by
  refine ⟨refinement.initial initial, ?_⟩
  induction run with
  | nil => exact .nil
  | @snoc trace before label next prior taken ih =>
      have seen := refinement.step ⟨start, trace, initial, prior⟩ taken
      rw [List.filterMap_append]
      cases event : refinement.event before label with
      | none =>
          rw [event] at seen
          obtain same : refinement.view before = refinement.view next := Option.some.inj seen
          simpa [image, event, ← same] using ih
      | some event' =>
          rw [event] at seen
          simpa [image, event] using ih.snoc seen

end Refinement

end Machine

end Base
