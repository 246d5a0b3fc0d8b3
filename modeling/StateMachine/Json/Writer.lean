/-
# Writing JSON documents

A document is written in one of two layouts: compact, without any blank, or indented, with each
element and member on a line of its own, two spaces deeper than the bracket around it. Lists and
objects without elements are written the same in both.
-/

import StateMachine.Json.Basic

namespace StateMachine
namespace Json

/-- How a document is laid out. -/
inductive Layout where
  | compact
  | indented
  deriving DecidableEq, Repr

/-- What stands before an element at the given depth. -/
def Layout.newline : Layout → Nat → List Char
  | compact, _ => []
  | indented, depth => '\n' :: List.replicate (2 * depth) ' '

/-- What stands between a key and its value. -/
def Layout.colon : Layout → List Char
  | compact => [':']
  | indented => [':', ' ']

/-- A lexeme in quotes. -/
def quote (lexeme : List Char) : List Char := '"' :: (lexeme ++ ['"'])

mutual

/-- The text of a value at the given depth. -/
def write (l : Layout) (depth : Nat) : Json → List Char
  | null => ['n', 'u', 'l', 'l']
  | bool true => ['t', 'r', 'u', 'e']
  | bool false => ['f', 'a', 'l', 's', 'e']
  | number lexeme => lexeme
  | text lexeme => quote lexeme
  | list [] => ['[', ']']
  | list (e :: es) =>
    '[' :: (l.newline (depth + 1) ++ write l (depth + 1) e ++ writeElements l (depth + 1) es ++
      l.newline depth ++ [']'])
  | object [] => ['{', '}']
  | object ((key, value) :: ms) =>
    '{' :: (l.newline (depth + 1) ++ quote key ++ l.colon ++ write l (depth + 1) value ++
      writeMembers l (depth + 1) ms ++ l.newline depth ++ ['}'])

/-- The text of the elements of a list after the first. -/
def writeElements (l : Layout) (depth : Nat) : List Json → List Char
  | [] => []
  | e :: es => ',' :: (l.newline depth ++ write l depth e ++ writeElements l depth es)

/-- The text of the members of an object after the first. -/
def writeMembers (l : Layout) (depth : Nat) : List (List Char × Json) → List Char
  | [] => []
  | (key, value) :: ms =>
    ',' :: (l.newline depth ++ quote key ++ l.colon ++ write l depth value ++
      writeMembers l depth ms)

end

/-- The value as a document. -/
def render (l : Layout) (j : Json) : String := String.ofList (j.write l 0)

end Json
end StateMachine
