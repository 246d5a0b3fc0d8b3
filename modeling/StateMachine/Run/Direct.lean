/-
# Direct runs

A direct run takes the first eligible transition in every state and never returns: it ends as soon
as a turn settles the outcome or the limit forbids the next transition.
-/

import StateMachine.Run.Report

namespace StateMachine

universe u v

variable {C : Type u} {K : Type v} [Input C] [BEq K]

/-- One turn of a direct run. -/
def Configuration.step {m : Machine C K} (limits : Limits) (g : Configuration m) :
    Progress (Configuration m) (Report C) :=
  match g.turn with
  | .settled g outcome => .finish (g.finish outcome 0)
  | .choice g i =>
    match limits.exceeded g.steps with
    | some outcome => .finish (g.finish outcome 0)
    | none => .continue (g.fire i)

/-- Runs a machine on a context for at most the given number of turns, one for each state that is
entered. The result is `none` while the run goes on. -/
def Machine.run (m : Machine C K) (limits : Limits) (c : C) (turns : Nat) : Option (Report C) :=
  Loop.run (Configuration.step limits) turns (Configuration.start m c)

end StateMachine
