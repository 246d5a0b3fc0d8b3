/-
# Texts in JSON

Between its quotes a text is written with escapes. Writing escapes what has to be: the quote, the
backslash and the control characters below the space, the usual five of them by a letter, the
others by number. Reading takes every escape, so there are many ways to write a text, and one way
in which it is written here.

An escape by number gives a UTF-16 code unit. Two units of a surrogate pair are one character; a
unit that belongs to a pair and stands alone makes the lexeme no Unicode text.
-/

import StateMachine.Json.Basic
import StateMachine.Text.Hex

namespace StateMachine
namespace Json

/-- A character below the space, written by its number. -/
def escapeControl (c : Char) : List Char :=
  ['\\', 'u', '0', '0', Hex.digit (c.toNat / 16), Hex.digit (c.toNat % 16)]

/-- A character as it is written in a text. -/
def escapeChar (c : Char) : List Char :=
  if c = '"' then ['\\', '"']
  else if c = '\\' then ['\\', '\\']
  else if c = '\x08' then ['\\', 'b']
  else if c = '\t' then ['\\', 't']
  else if c = '\n' then ['\\', 'n']
  else if c = '\x0c' then ['\\', 'f']
  else if c = '\r' then ['\\', 'r']
  else if c.toNat < 0x20 then escapeControl c
  else [c]

/-- A text as it is written between its quotes. -/
def escape (l : List Char) : List Char := l.flatMap escapeChar

/-- A piece of a lexeme: a character, or a UTF-16 code unit given by its number. -/
inductive Piece where
  | char (c : Char)
  | unit (n : Nat)
  deriving DecidableEq, Repr

/-- The character that a letter after a backslash stands for. -/
def escaped? : Char → Option Char
  | '"' => some '"'
  | '\\' => some '\\'
  | '/' => some '/'
  | 'b' => some '\x08'
  | 'f' => some '\x0c'
  | 'n' => some '\n'
  | 'r' => some '\r'
  | 't' => some '\t'
  | _ => none

/-- The pieces of a lexeme; `none` if an escape in it is none. -/
def pieces : List Char → Option (List Piece)
  | [] => some []
  | '\\' :: rest =>
    match rest with
    | [] => none
    | 'u' :: a :: b :: c :: d :: rest =>
      (Hex.numeral? [a, b, c, d]).bind fun n => (pieces rest).map (.unit n :: ·)
    | e :: rest => (escaped? e).bind fun c => (pieces rest).map (.char c :: ·)
  | c :: rest => (pieces rest).map (.char c :: ·)

/-- The unit is the first of a surrogate pair. -/
def isHigh (n : Nat) : Bool := decide (0xD800 ≤ n) && decide (n < 0xDC00)

/-- The unit is the second of a surrogate pair. -/
def isLow (n : Nat) : Bool := decide (0xDC00 ≤ n) && decide (n < 0xE000)

/-- The character of a surrogate pair. -/
def pairChar (high low : Nat) : Char :=
  Char.ofNat (0x10000 + 0x400 * (high - 0xD800) + (low - 0xDC00))

/-- Puts pieces together to characters; `none` if a surrogate stands alone. -/
def assemble : List Piece → Option (List Char)
  | [] => some []
  | .char c :: rest => (assemble rest).map (c :: ·)
  | .unit n :: rest =>
    if isHigh n then
      match rest with
      | .unit m :: rest => if isLow m then (assemble rest).map (pairChar n m :: ·) else none
      | _ => none
    else if isLow n then none
    else (assemble rest).map (Char.ofNat n :: ·)

/-- The text that a lexeme is written for. -/
def unescape (lexeme : List Char) : Option String :=
  ((pieces lexeme).bind assemble).map String.ofList

/-- A text as a JSON value. -/
def ofString (s : String) : Json := .text (escape s.toList)

/-- The text that a JSON value is. -/
def string? : Json → Option String
  | .text lexeme => unescape lexeme
  | _ => none

/-- The two units of a surrogate pair. -/
example : unescape "\\ud83d\\ude00".toList = some "😀" := by decide +kernel

/-- The first of them alone. -/
example : unescape "\\ud83d".toList = none := by decide +kernel

end Json
end StateMachine
