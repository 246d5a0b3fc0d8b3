/-
# The diagram of a machine

As a graph, a machine has the names of its states as vertices, and one edge for each state to which
a state has a transition.
-/

import StateMachine.Graph.Basic
import StateMachine.Machine

namespace StateMachine

universe u v

variable {C : Type u} {K : Type v}

namespace Machine

/-- The names of the states, in their order. -/
def stateNames (m : Machine C K) : List String := m.states.toList.map State.name

/-- The names of the states to which a state has a transition, each where it comes first. -/
def targets (m : Machine C K) (i : Fin m.count) : List String :=
  ((m.state i).transitions.map fun t => m.stateName t.target).eraseDups

instance : Graph (Machine C K) String where
  vertices := stateNames
  successors m name :=
    match m.find? name with
    | some i => .ok (m.targets i)
    | none => .error (.notFound name)
  count? m := some m.count
  contains m name := (m.find? name).isSome

end Machine
end StateMachine
