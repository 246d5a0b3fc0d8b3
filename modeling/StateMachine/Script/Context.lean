/-
# The context of scripted machines

Scripted actions and guards work on a tape of characters, on integer variables with names, and on a
log. A variable that was never set reads as zero. Going back to a mark restores the tape and the
variables, but neither the log nor the variables whose name starts with an underscore: those are
for what a search is to remember across the ways it tries.
-/

import StateMachine.Symbol
import StateMachine.Stack
import StateMachine.Tape

namespace StateMachine
namespace Script

/-- Variables with their values, no name twice. -/
abbrev Variables := List (String × Int)

namespace Variables

/-- The value of a variable. -/
def get (vs : Variables) (name : String) : Int := (vs.lookup name).getD 0

/-- Gives a variable a value. -/
def set (vs : Variables) (name : String) (value : Int) : Variables :=
  if vs.any (·.1 == name) then vs.map fun v => if v.1 == name then (name, value) else v
  else vs ++ [(name, value)]

/-- Going back leaves a variable of this name as it is. -/
def isLasting (name : String) : Bool := name.toList.head? == some '_'

/-- The variables that going back restores. -/
def restorable (vs : Variables) : Variables := vs.filter fun v => !isLasting v.1

/-- The variables that going back leaves as they are. -/
def lasting (vs : Variables) : Variables := vs.filter fun v => isLasting v.1

end Variables

/-- Something that a script has logged. -/
inductive Entry where
  | text (s : String)
  /-- The symbol stack, the bottom symbol first. -/
  | stack (symbols : List Symbol)
  deriving DecidableEq, Repr

/-- What scripts work on. -/
structure Context where
  tape : Tape Char
  vars : Variables := []
  /-- What was logged, the latest entry first. -/
  log : List Entry := []
  deriving DecidableEq

namespace Context

instance : Cursor Context Char where
  current c := c.tape.current

instance : Input Context where
  atEnd c := Input.atEnd c.tape

/-- What a mark of a context holds. -/
structure Mark where
  tape : Nat
  vars : Variables
  deriving DecidableEq, Repr

instance : Rewind Context Mark where
  mark c := { tape := Rewind.mark c.tape, vars := c.vars.restorable }
  rewind c m :=
    { c with
      tape := Rewind.rewind c.tape m.tape
      vars := c.vars.lasting ++ m.vars }

/-- The context with one more entry in its log. -/
def record (c : Context) (e : Entry) : Context := { c with log := e :: c.log }

end Context
end Script
end StateMachine
