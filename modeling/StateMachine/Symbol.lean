/-
# Symbols of several kinds

Texts, integers and single characters, for stacks, tapes and graphs that hold any of them. Symbols
of different kinds are never equal.
-/

namespace StateMachine

/-- A text, an integer or a character. -/
inductive Symbol where
  | text (s : String)
  | int (n : Int)
  | char (c : Char)
  deriving DecidableEq, Repr

end StateMachine
