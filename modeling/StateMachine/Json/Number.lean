/-
# Numbers in JSON

A number is a minus sign or none, an integer part without needless zeros, and optionally a fraction
and an exponent. The natural numbers below `2 ^ 64` are those written by digits alone: a number
with a sign, a fraction or an exponent is not read as a natural number, whatever its value.
-/

import StateMachine.Json.Basic
import StateMachine.Text.Decimal

namespace StateMachine
namespace Json

/-- Reads a minus sign, if there is one. -/
def readSign : List Char → List Char × List Char
  | '-' :: rest => (['-'], rest)
  | s => ([], s)

/-- Reads an integer part: a zero, or digits that do not begin with one. -/
def readInteger : List Char → Option (List Char × List Char)
  | '0' :: rest => some (['0'], rest)
  | s => Decimal.read s

/-- Reads a fraction, if there is one: a point and digits. -/
def readFraction : List Char → Option (List Char × List Char)
  | '.' :: rest => (Decimal.read rest).map fun (digits, rest) => ('.' :: digits, rest)
  | s => some ([], s)

/-- Reads the sign of an exponent, if there is one. -/
def readExponentSign : List Char → List Char × List Char
  | '+' :: rest => (['+'], rest)
  | '-' :: rest => (['-'], rest)
  | s => ([], s)

/-- Reads an exponent, if there is one: the letter e, a sign or none, and digits. -/
def readExponent : List Char → Option (List Char × List Char)
  | [] => some ([], [])
  | c :: rest =>
    if c = 'e' ∨ c = 'E' then
      let (sign, rest) := readExponentSign rest
      (Decimal.read rest).map fun (digits, rest) => (c :: (sign ++ digits), rest)
    else some ([], c :: rest)

/-- Reads a number: the way it is written, and what follows it. -/
def readNumber (s : List Char) : Option (List Char × List Char) :=
  let (sign, s) := readSign s
  (readInteger s).bind fun (integer, s) =>
    (readFraction s).bind fun (fraction, s) =>
      (readExponent s).map fun (exponent, s) => (sign ++ integer ++ fraction ++ exponent, s)

/-- One more than the greatest number that a machine word holds. -/
def wordBound : Nat := Nat.pow 2 64

/-- A natural number as a JSON value. -/
def ofNat (n : Nat) : Json := .number (Decimal.numeral n)

/-- The natural number below `wordBound` that a JSON value is. -/
def nat? : Json → Option Nat
  | .number lexeme =>
    if lexeme.all Char.isDigit ∧ Decimal.value lexeme < wordBound then
      some (Decimal.value lexeme)
    else none
  | _ => none

end Json
end StateMachine
