/-
# Balanced brackets

The machine recognises the texts in which every bracket is closed by its partner and in which
blanks may stand anywhere. It pushes an opening bracket, takes it from the stack where its partner
closes it, and passes over a blank; each time it moves to a second state that takes the symbol under
the cursor. The brackets are all different, so there is never a choice between two transitions.
-/

import StateMachine.Draft.Basic
import StateMachine.Machine
import StateMachine.Tape

namespace StateMachine

universe u

/-- A blank, and pairs of an opening and a closing bracket, all of them different characters. -/
structure Brackets where
  blank : Char
  pairs : List (Char × Char)
  nodup : (blank :: pairs.flatMap fun p => [p.1, p.2]).Nodup

namespace Brackets

variable {σ : Type u}

/-- Fired at an opening bracket, which it pushes. -/
def opening (shift : σ) (p : Char × Char) : Transition (Tape Char) Char σ :=
  ((Transition.onSymbol shift p.1).pushing p.1).labelled (String.singleton p.1)

/-- Fired at a closing bracket, whose partner it takes from the stack. -/
def closing (shift : σ) (p : Char × Char) : Transition (Tape Char) Char σ :=
  ((Transition.onSymbol shift p.2).popping p.1).labelled (String.singleton p.2)

variable (b : Brackets)

/-- Fired at a blank. -/
def skipping (shift : σ) : Transition (Tape Char) Char σ :=
  (Transition.onSymbol shift b.blank).labelled "blank"

/-- The transitions for the blank and for each pair of brackets. -/
def transitions (shift : σ) : List (Transition (Tape Char) Char σ) :=
  b.skipping shift :: b.pairs.flatMap fun p => [opening shift p, closing shift p]

/-- Looks at the symbol under the cursor. -/
def scanState (shift : σ) : State (Tape Char) Char σ where
  name := "scan"
  accepting := true
  transitions := b.transitions shift

/-- Takes the symbol under the cursor. -/
def shiftState (scan : σ) : State (Tape Char) Char σ :=
  ((State.named "shift").effect fun t => t.after t.advance).transition (.towards scan)

/-- What declares the machine, its states given by their names. -/
def declarations : List (Declaration (Tape Char) Char) :=
  [.name "brackets", .initial "scan", .state (b.scanState "shift"), .state (shiftState "scan")]

/-- The states `scan` and `shift`, their targets given by positions. -/
def states : Vector (State (Tape Char) Char (Fin 2)) 2 := #v[b.scanState 1, shiftState 0]

/-- The machine that recognises balanced brackets. -/
def machine : Machine (Tape Char) Char where
  name := "brackets"
  count := 2
  states := b.states
  initial := 0
  policy := .acceptAtEnd
  names_nodup := by
    simp [states, scanState, shiftState, State.named, State.effect, State.onEntry, State.transition]

/-- Round, square and curly brackets. -/
def common : Brackets where
  blank := ' '
  pairs := [('(', ')'), ('[', ']'), ('\x7b', '\x7d')]
  nodup := by decide

end Brackets
end StateMachine
