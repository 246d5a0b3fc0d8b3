/-
# Palindromes of even length

The machine recognises the texts over `a` and `b` that read a word forwards and then backwards. It
pushes the symbols of the word, guesses where the middle is, and from there on takes from the stack
what it reads. As it tries first to push, a search goes back once for each symbol that turns out to
belong to the second half.
-/

import StateMachine.Draft.Basic
import StateMachine.Machine
import StateMachine.Tape

namespace StateMachine
namespace Palindrome

/-- Takes the symbol under the cursor. -/
def eat (t : Tape Char) : Tape Char := t.after t.advance

/-- What declares the machine, its states given by their names. -/
def declarations : List (Declaration (Tape Char) Char) :=
  [.name "palindrome", .initial "push",
    .state ((State.named "push")
      |>.transition ((Transition.onSymbol "shift" 'a').pushing 'a')
      |>.transition ((Transition.onSymbol "shift" 'b').pushing 'b')
      |>.transition (.towards "match")),
    .state (((State.named "shift").effect eat).transition (.towards "push")),
    .state ((State.named "match").asAccepting
      |>.transition ((Transition.onSymbol "reduce" 'a').popping 'a')
      |>.transition ((Transition.onSymbol "reduce" 'b').popping 'b')),
    .state (((State.named "reduce").effect eat).transition (.towards "match"))]

/-- The states `push`, `shift`, `match` and `reduce`, their targets given by positions. -/
def states : Vector (State (Tape Char) Char (Fin 4)) 4 :=
  #v[(State.named "push")
      |>.transition ((Transition.onSymbol 1 'a').pushing 'a')
      |>.transition ((Transition.onSymbol 1 'b').pushing 'b')
      |>.transition (.towards 2),
    ((State.named "shift").effect eat).transition (.towards 0),
    (State.named "match").asAccepting
      |>.transition ((Transition.onSymbol 3 'a').popping 'a')
      |>.transition ((Transition.onSymbol 3 'b').popping 'b'),
    ((State.named "reduce").effect eat).transition (.towards 2)]

/-- The machine that recognises palindromes of even length. -/
def machine : Machine (Tape Char) Char where
  name := "palindrome"
  count := 4
  states
  initial := 0
  policy := .acceptAtEnd
  names_nodup := by decide

end Palindrome
end StateMachine
