/-
# Decimal numerals

Rows of decimal digits: their value, the numeral of a number with or without leading zeros, and the
digits at the beginning of a text.
-/

namespace StateMachine
namespace Decimal

/-- A number written with as many digits as it needs. -/
def numeral (n : Nat) : List Char := Nat.toDigits 10 n

/-- A number written with at least the given number of digits. -/
def padded (width n : Nat) : List Char :=
  List.replicate (width - (numeral n).length) '0' ++ numeral n

/-- The value of a row of digits. -/
def value (l : List Char) : Nat := l.foldl (fun n c => 10 * n + (c.toNat - '0'.toNat)) 0

/-- The digits at the beginning, and what follows them. -/
def split (s : List Char) : List Char × List Char :=
  (s.takeWhile Char.isDigit, s.dropWhile Char.isDigit)

/-- Reads one digit or more. -/
def read (s : List Char) : Option (List Char × List Char) :=
  if (split s).1.isEmpty then none else some (split s)

/-- Reads at least one and at most `width` digits. -/
def readAtMost (width : Nat) (s : List Char) : Option (List Char × List Char) :=
  let digits := (s.take width).takeWhile Char.isDigit
  if digits.isEmpty then none else some (digits, s.drop digits.length)

end Decimal
end StateMachine
