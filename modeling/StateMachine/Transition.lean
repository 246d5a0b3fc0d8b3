/-
# Guards and transitions

A transition leads to a target and may have a guard, require a symbol on top of the stack (which it
pops), push a symbol, and carry a label for descriptions. It is *eligible* when the stack admits it
and the guard agrees; the guard is asked of the context and the stack.

The type `σ` of targets is the name of a state while a machine is being declared and its position
in the machine afterwards, so that a transition of a machine always leads somewhere.
-/

import StateMachine.Context
import StateMachine.Stack

namespace StateMachine

universe u v w x

/-- A test on the context and the symbol stack. -/
structure Guard (C : Type u) (K : Type v) where
  check : C → Stack K → Bool

/-- A guard that does not look at the stack. -/
def Guard.ofContext {C : Type u} {K : Type v} (test : C → Bool) : Guard C K := ⟨fun c _ => test c⟩

/-- A guarded edge of a state machine. -/
structure Transition (C : Type u) (K : Type v) (σ : Type w) where
  target : σ
  guard : Option (Guard C K) := none
  /-- The symbol that must be on top of the stack and is popped. -/
  pop : Option K := none
  /-- The symbol that is pushed, after any pop. -/
  push : Option K := none
  label : Option String := none

namespace Transition

variable {C : Type u} {K : Type v} {σ : Type w}

/-- An unguarded transition. -/
def towards (target : σ) : Transition C K σ := { target }

/-- The transition with the given guard, in place of any it had. -/
def guarded (t : Transition C K σ) (g : Guard C K) : Transition C K σ := { t with guard := some g }

/-- The transition guarded by a test on the context alone. -/
def when (t : Transition C K σ) (test : C → Bool) : Transition C K σ := t.guarded (.ofContext test)

/-- The transition, popping the given symbol. -/
def popping (t : Transition C K σ) (k : K) : Transition C K σ := { t with pop := some k }

/-- The transition, pushing the given symbol. -/
def pushing (t : Transition C K σ) (k : K) : Transition C K σ := { t with push := some k }

/-- The transition with the given label, in place of any it had. -/
def labelled (t : Transition C K σ) (text : String) : Transition C K σ :=
  { t with label := some text }

/-- A transition for one symbol under the cursor. -/
def onSymbol {α : Type x} [Cursor C α] [BEq α] (target : σ) (a : α) : Transition C K σ :=
  (towards target).when fun c => Cursor.current c == some a

/-- A transition for the end of the input. -/
def atEnd {α : Type x} [Cursor C α] (target : σ) : Transition C K σ :=
  (towards target).when fun c => Cursor.isExhausted c

/-- The transition may fire: the stack admits it and its guard, if any, agrees. -/
def eligible [BEq K] (t : Transition C K σ) (c : C) (s : Stack K) : Bool :=
  s.admits t.pop && t.guard.all fun g => g.check c s

/-- The same transition to another target. -/
def withTarget {τ : Type x} (t : Transition C K σ) (target : τ) : Transition C K τ :=
  { target, guard := t.guard, pop := t.pop, push := t.push, label := t.label }

end Transition
end StateMachine
