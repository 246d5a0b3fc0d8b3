/-
# Descriptions of machines

A description is what a diagram of a machine needs: the states in their order with their
transitions, whether each is guarded, and its label. Stack symbols are given as literals.
-/

import StateMachine.Machine
import StateMachine.Text.Literal

namespace StateMachine

universe u v

/-- A described transition. -/
structure EdgeDescription where
  target : String
  label : Option String
  guarded : Bool
  pop : Option String
  push : Option String
  deriving DecidableEq, Repr

/-- A described state. -/
structure StateDescription where
  name : String
  accepting : Bool
  transitions : List EdgeDescription
  deriving DecidableEq, Repr

/-- A described machine. -/
structure Description where
  name : String
  initial : String
  states : List StateDescription
  deriving DecidableEq, Repr

namespace Machine

variable {C : Type u} {K : Type v} [Literal K]

/-- A transition as it is described: the target by its name, the symbols by their literals, and of
the guard only whether there is one. -/
def describeTransition (m : Machine C K) (t : Transition C K (Fin m.count)) : EdgeDescription where
  target := m.stateName t.target
  label := t.label
  guarded := t.guard.isSome
  pop := t.pop.map Literal.literal
  push := t.push.map Literal.literal

/-- A state as it is described, with its transitions in their order. -/
def describeState (m : Machine C K) (s : State C K (Fin m.count)) : StateDescription where
  name := s.name
  accepting := s.accepting
  transitions := s.transitions.map m.describeTransition

/-- The description of a machine. -/
def describe (m : Machine C K) : Description where
  name := m.name
  initial := m.stateName m.initial
  states := m.states.toList.map m.describeState

end Machine
end StateMachine
