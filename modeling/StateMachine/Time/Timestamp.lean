/-
# Moments in time

A timestamp counts seconds from the beginning of 1970 in universal time, and nanoseconds within the
second. A leap second is counted with the second before it, as its nanoseconds from `10 ^ 9` on.

It is written as a date and a time of day with a `Z` for universal time. The fraction of the second
has no digits, or three, six or nine of them, the fewest that are exact. A year outside of 0 to
9999 is written with its sign.
-/

import StateMachine.Text.Decimal
import StateMachine.Time.Calendar

namespace StateMachine

/-- A moment in time. -/
structure Timestamp where
  /-- Seconds from the beginning of 1970. -/
  seconds : Int
  /-- Nanoseconds within the second, from `10 ^ 9` on in a leap second that follows it. -/
  nanos : Nat
  deriving DecidableEq, Repr

namespace Timestamp

/-- The nanoseconds of a second. -/
def second : Nat := 1000000000

/-- The seconds of a day. -/
def day : Nat := 86400

/-- The date of a moment. -/
def date (t : Timestamp) : Date := .ofNumber (t.seconds / day)

/-- The seconds since the beginning of the day. -/
def secondOfDay (t : Timestamp) : Nat := (t.seconds % day).toNat

/-- The moment is in a leap second. -/
def isLeap (t : Timestamp) : Bool := decide (second ≤ t.nanos)

/-- The leap second to count on the way from one time of day to another: the earlier one's lies
between the two. -/
def leapBetween (a b : Timestamp) : Int :=
  if a.secondOfDay < b.secondOfDay ∧ a.isLeap then 1
  else if b.secondOfDay < a.secondOfDay ∧ b.isLeap then -1
  else 0

/-- The nanoseconds from one moment to another, negative if it is earlier. -/
def nanosBetween (a b : Timestamp) : Int :=
  second * (b.seconds - a.seconds + leapBetween a b) + (b.nanos - a.nanos)

/-- The time from one moment to a later one, in seconds and nanoseconds. -/
def elapsed (a b : Timestamp) : Option (Nat × Nat) :=
  if nanosBetween a b < 0 then none
  else some ((nanosBetween a b).toNat / second, (nanosBetween a b).toNat % second)

/-- The fraction of a second, with its point. -/
def writeFraction (nanos : Nat) : List Char :=
  if nanos = 0 then []
  else if nanos % 1000000 = 0 then '.' :: Decimal.padded 3 (nanos / 1000000)
  else if nanos % 1000 = 0 then '.' :: Decimal.padded 6 (nanos / 1000)
  else '.' :: Decimal.padded 9 nanos

/-- A year: four digits, or a sign and at least four digits. -/
def writeYear (year : Int) : List Char :=
  if 0 ≤ year ∧ year ≤ 9999 then Decimal.padded 4 year.toNat
  else (if year < 0 then '-' else '+') :: Decimal.padded 4 year.natAbs

/-- A date, its parts joined by hyphens. -/
def writeDate (d : Date) : List Char :=
  writeYear d.year ++ '-' :: Decimal.padded 2 d.month ++ '-' :: Decimal.padded 2 d.day

/-- A time of day. A leap second is the sixtieth of its minute. -/
def writeTime (secondOfDay nanos : Nat) : List Char :=
  let leap := nanos / second
  Decimal.padded 2 (secondOfDay / 3600) ++ ':' :: Decimal.padded 2 (secondOfDay / 60 % 60) ++
    ':' :: Decimal.padded 2 (secondOfDay % 60 + leap) ++ writeFraction (nanos % second)

/-- A moment in universal time. -/
def write (t : Timestamp) : List Char :=
  writeDate t.date ++ 'T' :: writeTime t.secondOfDay t.nanos ++ ['Z']

/-- Half a second after midnight, on a leap day: three digits are enough. -/
example : write ⟨951782400, 500000000⟩ = "2000-02-29T00:00:00.500Z".toList := by decide +kernel

/-- The last nanosecond before the count begins. -/
example : write ⟨-1, 999999999⟩ = "1969-12-31T23:59:59.999999999Z".toList := by decide +kernel

end Timestamp
end StateMachine
