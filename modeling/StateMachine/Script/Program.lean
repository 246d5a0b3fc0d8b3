/-
# Scripted actions

A program is a list of instructions, run in order until one of them stops it. An instruction may
move the tape, change a variable, write to the log, or branch; a stop inside a branch stops the
whole program. The signal of a program that is not stopped is to proceed.
-/

import StateMachine.Script.Predicate
import StateMachine.State

namespace StateMachine
namespace Script

/-- An instruction of a scripted action. -/
inductive Instruction where
  /-- Moves the tape on, if that is possible. -/
  | advance
  /-- Moves the tape on; rejects if that is not possible. -/
  | advanceStrictly
  /-- Moves the tape on as long as the symbol under the cursor occurs in the text. -/
  | advanceWhile (text : String)
  /-- Moves the tape to a position; rejects if that is not possible. -/
  | seek (position : Nat)
  | set (name : String) (value : Int)
  | add (name : String) (value : Int)
  | log (text : String)
  /-- Logs the symbol stack. -/
  | logStack
  | branch (p : Predicate) (onTrue onFalse : List Instruction)
  /-- Stops with a signal. -/
  | stop (signal : Signal)

/-- Instructions in the order in which they run. -/
abbrev Program := List Instruction

namespace Program

/-- Moves the tape, or stops with a rejection that tells why it does not move. -/
def move (c : Context) : Except TapeError (Tape Char) → Context × Option Signal
  | .ok tape => ({ c with tape }, none)
  | .error e => (c, some (.reject e.message))

mutual

/-- Runs a program: the context it leaves, and the signal it was stopped with, if any. -/
def run (s : Stack Symbol) : Program → Context → Context × Option Signal
  | [], c => (c, none)
  | i :: rest, c =>
    match runOne s i c with
    | (c, none) => run s rest c
    | (c, some signal) => (c, some signal)

/-- Runs one instruction. -/
def runOne (s : Stack Symbol) : Instruction → Context → Context × Option Signal
  | .advance, c => ({ c with tape := c.tape.after c.tape.advance }, none)
  | .advanceStrictly, c => move c c.tape.advance
  | .advanceWhile text, c => ({ c with tape := c.tape.advanceWhile text.toList.contains }, none)
  | .seek p, c => move c (c.tape.seek p)
  | .set name value, c => ({ c with vars := c.vars.set name value }, none)
  | .add name value, c =>
    ({ c with vars := c.vars.set name (c.vars.get name + value) }, none)
  | .log text, c => (c.record (.text text), none)
  | .logStack, c => (c.record (.stack s.toList), none)
  | .branch p onTrue onFalse, c =>
    if p.eval c s then run s onTrue c else run s onFalse c
  | .stop signal, c => (c, some signal)

end

/-- The program as an entry action. -/
def action (p : Program) (c : Context) (s : Stack Symbol) : Context × Signal :=
  let (c, signal) := p.run s c
  (c, signal.getD .proceed)

/-- The program as an entry action that sees an empty stack. -/
def actionOnContext (p : Program) (c : Context) (_ : Stack Symbol) : Context × Signal :=
  p.action c .empty

/-- The program as a change of the context: it sees an empty stack, and its signal is ignored. -/
def effect (p : Program) (c : Context) : Context := (p.run .empty c).1

/-- The reason given by a handler whose program decides nothing. -/
def stuck (i : Impasse Symbol) : String :=
  s!"stuck in {i.state} accepting={i.accepting} depth={i.stack.size}"

/-- The program as a handler for impasses. A program that neither accepts nor rejects rejects. -/
def handler (p : Program) : Handler Context Symbol := fun c i =>
  match p.action c i.stack with
  | (c, .accept) => (c, .accepted)
  | (c, .reject reason) => (c, .rejected reason)
  | (c, .proceed) => (c, .rejected (stuck i))

end Program
end Script
end StateMachine
