/-
# Reports of finished runs

A report holds the outcome of a run, the path to the state where it ended, the final context, the
number of transitions fired and of choices returned to, and every notice in order. The last notice
tells the outcome and names the state in which the path ends.
-/

import StateMachine.Run.Configuration

namespace StateMachine

universe u v

/-- What a finished run leaves behind. -/
structure Report (C : Type u) where
  outcome : Outcome
  path : Path
  context : C
  /-- The number of transitions fired, also those that a search has taken back. -/
  steps : Nat
  /-- How often a search has returned to a choice, to take another transition. -/
  backtracks : Nat
  /-- The notices of the run, the first one first. -/
  notices : List (Notice C)

variable {C : Type u} {K : Type v}

/-- The event that tells an outcome. -/
def Outcome.event (state : String) : Outcome → Event
  | .accepted => .accepted state
  | .rejected reason => .rejected state reason

/-- The report of a run that ends here. -/
def Configuration.finish {m : Machine C K} (g : Configuration m) (outcome : Outcome)
    (backtracks : Nat) : Report C :=
  let g := g.notify (outcome.event g.path.last)
  { outcome, path := g.path, context := g.context, steps := g.steps, backtracks,
    notices := g.notices.reverse }

end StateMachine
