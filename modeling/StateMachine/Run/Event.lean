/-
# Events of a run

A run announces what it does: each state it enters and leaves, each transition it fires, and how it
ends; a search announces also each choice it returns to, and that none is left. A *notice* is an
event together with the context at that moment.
-/

import StateMachine.Path

namespace StateMachine

universe u

/-- Something that happens in a run. -/
inductive Event where
  /-- A state is entered; its action has not run yet. -/
  | entered (state : String)
  /-- A state is left by a transition. -/
  | left (state : String)
  | fired (move : Move)
  | accepted (state : String)
  | rejected (state reason : String)
  /-- A search has returned to a state, to take another of its transitions. -/
  | returned (state : String)
  /-- A search has no choice left. -/
  | exhausted (reason : String)
  deriving DecidableEq, Repr

/-- An event and the context at its moment. -/
structure Notice (C : Type u) where
  event : Event
  context : C

end StateMachine
