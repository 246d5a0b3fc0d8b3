/-
# Reading JSON documents

A document is one value with blanks around it. `Json.read` gives the value, or `none` for what is
no document. Nesting may go to any depth, and the meaning of texts and numbers is not looked at.

Every value of a document takes at least one character, so the length of the document bounds the
work, twice over because reading a list and reading its first element begin at the same place.
-/

import StateMachine.Json.Number
import StateMachine.Json.Text

namespace StateMachine
namespace Json

/-- A character that may stand between tokens. -/
def isBlank (c : Char) : Bool := c == ' ' || c == '\t' || c == '\n' || c == '\r'

/-- What follows the blanks at the beginning. -/
def skipBlanks (s : List Char) : List Char := s.dropWhile isBlank

/-- Splits off what comes before the closing quote. Control characters cannot stand in a text. -/
def splitQuote : List Char → Option (List Char × List Char)
  | [] => none
  | '"' :: rest => some ([], rest)
  | '\\' :: c :: rest =>
    (splitQuote rest).map fun (lexeme, rest) => ('\\' :: c :: lexeme, rest)
  | c :: rest =>
    if c.toNat < 0x20 then none
    else (splitQuote rest).map fun (lexeme, rest) => (c :: lexeme, rest)

/-- Reads a text after its opening quote: the way it is written, and what follows. -/
def readText (s : List Char) : Option (List Char × List Char) :=
  (splitQuote s).bind fun (lexeme, rest) =>
    if (pieces lexeme).isSome then some (lexeme, rest) else none

mutual

/-- Reads a value at the beginning of `s`, with a bound on the work. -/
def readValue : Nat → List Char → Option (Json × List Char)
  | 0, _ => none
  | n + 1, s =>
    match s with
    | 'n' :: 'u' :: 'l' :: 'l' :: rest => some (.null, rest)
    | 't' :: 'r' :: 'u' :: 'e' :: rest => some (.bool true, rest)
    | 'f' :: 'a' :: 'l' :: 's' :: 'e' :: rest => some (.bool false, rest)
    | '"' :: rest => (readText rest).map fun (lexeme, rest) => (.text lexeme, rest)
    | '[' :: rest =>
      match skipBlanks rest with
      | ']' :: rest => some (.list [], rest)
      | rest => (readElements n rest).map fun (elements, rest) => (.list elements, rest)
    | '{' :: rest =>
      match skipBlanks rest with
      | '}' :: rest => some (.object [], rest)
      | rest => (readMembers n rest).map fun (members, rest) => (.object members, rest)
    | s => (readNumber s).map fun (lexeme, rest) => (.number lexeme, rest)

/-- Reads the elements of a list that is not empty, and its closing bracket. -/
def readElements : Nat → List Char → Option (List Json × List Char)
  | 0, _ => none
  | n + 1, s =>
    (readValue n s).bind fun (element, rest) =>
      match skipBlanks rest with
      | ']' :: rest => some ([element], rest)
      | ',' :: rest =>
        (readElements n (skipBlanks rest)).map fun (elements, rest) => (element :: elements, rest)
      | _ => none

/-- Reads the members of an object that is not empty, and its closing brace. -/
def readMembers : Nat → List Char → Option (List (List Char × Json) × List Char)
  | 0, _ => none
  | n + 1, s =>
    match s with
    | '"' :: rest =>
      (readText rest).bind fun (key, rest) =>
        match skipBlanks rest with
        | ':' :: rest =>
          (readValue n (skipBlanks rest)).bind fun (value, rest) =>
            match skipBlanks rest with
            | '}' :: rest => some ([(key, value)], rest)
            | ',' :: rest =>
              (readMembers n (skipBlanks rest)).map fun (members, rest) =>
                ((key, value) :: members, rest)
            | _ => none
        | _ => none
    | _ => none

end

/-- The value of a document. -/
def read (document : String) : Option Json :=
  let s := document.toList
  match readValue (2 * s.length + 1) (skipBlanks s) with
  | some (value, rest) => if (skipBlanks rest).isEmpty then some value else none
  | none => none

end Json
end StateMachine
