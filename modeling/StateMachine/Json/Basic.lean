/-
# JSON values

A JSON value as it stands in a document. Numbers and texts are kept as they are written, so the
syntax of a document is one thing and what its numbers and texts mean is another: a document may
hold texts that are no Unicode text, and numbers of any size, where nobody asks for their meaning.
Members of an object keep their order, and a key may occur more than once.
-/

namespace StateMachine

/-- A value in a JSON document. -/
inductive Json where
  | null
  | bool (b : Bool)
  /-- A number as it is written. -/
  | number (lexeme : List Char)
  /-- A text as it is written between its quotes. -/
  | text (lexeme : List Char)
  | list (elements : List Json)
  /-- An object: keys, as they are written between their quotes, with their values. -/
  | object (members : List (List Char × Json))
  deriving Repr

end StateMachine
