/-
# Summaries of runs

A summary is a report without context and notices, under the identifier of its run.
-/

import StateMachine.Run.Report
import StateMachine.Uuid

namespace StateMachine

universe u

/-- What is kept of a finished run. -/
structure Summary where
  run : Uuid
  outcome : Outcome
  /-- The states from the initial one to the one in which the run ended. -/
  path : List String
  steps : Nat
  backtracks : Nat
  deriving DecidableEq, Repr

/-- The summary of a report. -/
def Report.summary {C : Type u} (r : Report C) (run : Uuid) : Summary where
  run
  outcome := r.outcome
  path := r.path.states
  steps := r.steps
  backtracks := r.backtracks

end StateMachine
