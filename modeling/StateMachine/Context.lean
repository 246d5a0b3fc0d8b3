/-
# What a run asks of its context

A machine runs over a *context*: the value that actions change and guards read. The run itself
never looks inside. It only asks

* whether the input is used up (`Input.atEnd`), for the default decision at an impasse;
* for a *mark* of the context, and to go back to a mark (`Rewind`), when it searches.

A context that reads symbols one after the other is a `Cursor`; transitions can be guarded by the
symbol under it.
-/

namespace StateMachine

universe u v w

/-- A context that can say whether its input is used up. -/
class Input (C : Type u) where
  atEnd : C → Bool

/-- A context with a cursor on a sequence of symbols. -/
class Cursor (C : Type u) (α : outParam (Type v)) where
  /-- The symbol under the cursor, `none` past the last one. -/
  current : C → Option α

/-- No symbol is left under the cursor. -/
def Cursor.isExhausted {C : Type u} {α : Type v} [Cursor C α] (c : C) : Bool :=
  (Cursor.current c).isNone

/-- A context that can go back to an earlier moment. A mark may hold less than the context: what it
does not hold is kept as it is when the context goes back. -/
class Rewind (C : Type u) (M : outParam (Type w)) where
  mark : C → M
  rewind : C → M → C

end StateMachine
