/-
# Run identifiers

A run is identified by 128 bits, written as thirty-two hexadecimal digits in lower case, with
hyphens after the eighth, twelfth, sixteenth and twentieth. Reading takes either case, and the
digits without hyphens, with hyphens, with hyphens in braces, or with hyphens after `urn:uuid:`,
which may be in either case too.
-/

import StateMachine.Text.Hex

namespace StateMachine

/-- An identifier of 128 bits. -/
structure Uuid where
  value : Nat
  deriving DecidableEq, Repr

namespace Uuid

/-- The lengths of the groups of digits. -/
def groups : List Nat := [8, 4, 4, 4, 12]

/-- Thirty-two digits, the highest first. -/
def digits (u : Uuid) : List Char :=
  (List.range 32).reverse.map fun i => Hex.digit (u.value / Nat.pow 16 i % 16)

/-- Puts a hyphen between groups of the given lengths. -/
def hyphenate : List Nat → List Char → List Char
  | [], s => s
  | [_], s => s
  | n :: rest, s => s.take n ++ '-' :: hyphenate rest (s.drop n)

def write (u : Uuid) : List Char := hyphenate groups u.digits

/-- Takes the hyphens out from between groups of the given lengths. -/
def unhyphenate : List Nat → List Char → Option (List Char)
  | [], s => if s.isEmpty then some [] else none
  | [n], s => if s.length = n then some s else none
  | n :: rest, s =>
    match s.drop n with
    | '-' :: s' => (unhyphenate rest s').map (s.take n ++ ·)
    | _ => none

/-- What stands between braces. -/
def unbrace? : List Char → Option (List Char)
  | '\x7b' :: s => if s.getLast? = some '\x7d' then some s.dropLast else none
  | _ => none

/-- What follows `urn:uuid:`, in capital letters or small ones. -/
def afterUrn? (s : List Char) : Option (List Char) :=
  if (s.take 9).map Char.toLower = "urn:uuid:".toList then some (s.drop 9) else none

/-- The identifier with the given thirty-two digits. -/
def ofDigits? (s : List Char) : Option Uuid :=
  if s.length = 32 then (Hex.numeral? s).map (⟨·⟩) else none

/-- The identifier that a text gives. -/
def read? (text : String) : Option Uuid :=
  let s := text.toList
  let hyphenated :=
    if s.length = 36 then some s
    else if s.length = 38 then unbrace? s
    else afterUrn? s
  if s.length = 32 then ofDigits? s
  else (hyphenated.bind (unhyphenate groups)).bind ofDigits?

example : write ⟨255⟩ = "00000000-0000-0000-0000-0000000000ff".toList := by decide +kernel

example : read? "000000000000000000000000000000FF" = some ⟨255⟩ := by decide +kernel

example : read? "URN:uuid:00000000-0000-0000-0000-0000000000ff" = some ⟨255⟩ := by decide +kernel

example : read? "\x7b00000000-0000-0000-0000-0000000000ff\x7d" = some ⟨255⟩ := by decide +kernel

/-- A hyphen in the wrong place. -/
example : read? "0000000-00000-0000-0000-0000000000ff" = none := by decide +kernel

end Uuid
end StateMachine
