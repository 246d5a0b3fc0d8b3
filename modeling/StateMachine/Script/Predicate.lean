/-
# Scripted tests

A predicate asks about the symbol under the tape's cursor, the variables, and the symbol stack.
-/

import StateMachine.Script.Context
import StateMachine.Transition

namespace StateMachine
namespace Script

/-- An order relation between integers. -/
inductive Comparison where
  | lt | le | eq | ne | ge | gt
  deriving DecidableEq, Repr

/-- The comparison holds of two numbers. -/
def Comparison.holds : Comparison → Int → Int → Bool
  | lt, a, b => decide (a < b)
  | le, a, b => decide (a ≤ b)
  | eq, a, b => decide (a = b)
  | ne, a, b => decide (a ≠ b)
  | ge, a, b => decide (b ≤ a)
  | gt, a, b => decide (b < a)

/-- A test on a context and a stack. -/
inductive Predicate where
  | always
  | never
  /-- The symbol under the cursor occurs in the text. -/
  | among (text : String)
  /-- The tape is used up. -/
  | ended
  | not (p : Predicate)
  | all (ps : List Predicate)
  | any (ps : List Predicate)
  /-- Compares the value of a variable. -/
  | value (name : String) (relation : Comparison) (bound : Int)
  /-- Compares the number of symbols on the stack. -/
  | depth (relation : Comparison) (bound : Int)
  /-- The symbol is on top of the stack. -/
  | top (symbol : Symbol)
  /-- The symbol occurs in the stack. -/
  | holds (symbol : Symbol)
  deriving Repr

namespace Predicate

mutual

/-- The predicate is true of the context and the stack. -/
def eval (c : Context) (s : Stack Symbol) : Predicate → Bool
  | always => true
  | never => false
  | among text => c.tape.current.any text.toList.contains
  | ended => Cursor.isExhausted c
  | not p => !eval c s p
  | all ps => evalAll c s ps
  | any ps => evalAny c s ps
  | value name relation bound => relation.holds (c.vars.get name) bound
  | depth relation bound => relation.holds s.size bound
  | top k => s.top? == some k
  | holds k => s.contains k

/-- Every one of the predicates is true. -/
def evalAll (c : Context) (s : Stack Symbol) : List Predicate → Bool
  | [] => true
  | p :: rest => eval c s p && evalAll c s rest

/-- One of the predicates is true. -/
def evalAny (c : Context) (s : Stack Symbol) : List Predicate → Bool
  | [] => false
  | p :: rest => eval c s p || evalAny c s rest

end

/-- The predicate as a guard. -/
def guard (p : Predicate) : Guard Context Symbol := ⟨fun c s => p.eval c s⟩

/-- The predicate as a test on the context alone: it sees an empty stack. -/
def test (p : Predicate) (c : Context) : Bool := p.eval c .empty

end Predicate
end Script
end StateMachine
