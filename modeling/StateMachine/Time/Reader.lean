/-
# Reading timestamps

A moment is read from a date, a `T` or a space, a time of day, and the distance from universal
time: `Z`, `UTC`, or a sign with hours and minutes. White space may stand around the parts of date
and time and at the end, months to seconds may have one digit, and a year outside of 0 to 9999
needs a sign. Of the fraction of a second the first nine digits count. Dates that do not exist are
refused; the sixtieth second of a minute is a leap second.

Each reader takes the text from where the last one stopped, and gives what it read and the rest.
-/

import StateMachine.Text.Blank
import StateMachine.Time.Timestamp

namespace StateMachine
namespace Timestamp

/-- Reads one of the given characters. -/
def readChar (allowed : List Char) : List Char → Option (List Char)
  | [] => none
  | c :: rest => if c ∈ allowed then some rest else none

/-- Reads a separator, with white space before it. -/
def readSeparator (c : Char) (s : List Char) : Option (List Char) :=
  readChar [c] (skipWhiteSpace s)

/-- Reads a number of one digit or two, with white space before it. -/
def readPart (s : List Char) : Option (Nat × List Char) :=
  (Decimal.readAtMost 2 (skipWhiteSpace s)).map fun (digits, rest) => (Decimal.value digits, rest)

/-- Reads a year: up to four digits, or a sign and any number of digits. -/
def readYear (s : List Char) : Option (Int × List Char) :=
  let signed (sign : Int) (read : List Char × List Char) := (sign * Decimal.value read.1, read.2)
  match skipWhiteSpace s with
  | '-' :: rest => (Decimal.read rest).map (signed (-1))
  | '+' :: rest => (Decimal.read rest).map (signed 1)
  | s => (Decimal.readAtMost 4 s).map (signed 1)

/-- The years that dates are known for. -/
def isKnownYear (year : Int) : Bool := decide (-262143 ≤ year) && decide (year ≤ 262142)

/-- Reads a date. -/
def readDate (s : List Char) : Option (Date × List Char) := do
  let (year, s) ← readYear s
  let s ← readSeparator '-' s
  let (month, s) ← readPart s
  let s ← readSeparator '-' s
  let (day, s) ← readPart s
  let date : Date := { year, month, day }
  if isKnownYear year && date.isValid then some (date, s) else none

/-- The nanoseconds that the digits of a fraction give: nine digits, zeros added if there are
fewer. -/
def fractionNanos (digits : List Char) : Nat :=
  Decimal.value ((digits ++ List.replicate 9 '0').take 9)

/-- Reads the nanoseconds of a fraction, if there is one. -/
def readFraction : List Char → Option (Nat × List Char)
  | '.' :: rest => (Decimal.read rest).map fun (digits, rest) => (fractionNanos digits, rest)
  | s => some (0, s)

/-- Reads a time of day: its second, and the nanoseconds within it. -/
def readTime (s : List Char) : Option ((Nat × Nat) × List Char) := do
  let (hour, s) ← readPart s
  let s ← readSeparator ':' s
  let (minute, s) ← readPart s
  let s ← readSeparator ':' s
  let (sec, s) ← readPart s
  let (nanos, s) ← readFraction s
  let start := 3600 * hour + 60 * minute
  if hour < 24 ∧ minute < 60 then
    if sec < 60 then some ((start + sec, nanos), skipWhiteSpace s)
    else if sec = 60 then some ((start + 59, second + nanos), skipWhiteSpace s)
    else none
  else none

/-- A character that may stand between the hours and the minutes of a distance. -/
def isOffsetSeparator (c : Char) : Bool := c == ':' || isWhiteSpace c

/-- Reads hours and minutes of a distance from universal time, as seconds. -/
def readOffsetDigits : List Char → Option (Nat × List Char)
  | a :: b :: s =>
    match s.dropWhile isOffsetSeparator with
    | c :: d :: rest =>
      if [a, b, c, d].all Char.isDigit ∧ Decimal.value [a, b] < 24 ∧ Decimal.value [c, d] < 60 then
        some (3600 * Decimal.value [a, b] + 60 * Decimal.value [c, d], rest)
      else none
    | _ => none
  | _ => none

/-- Reads the seconds by which local time is ahead of universal time. -/
def readOffset : List Char → Option (Int × List Char)
  | [] => none
  | c :: rest =>
    if ((c :: rest).take 3).map Char.toUpper = ['U', 'T', 'C'] then some (0, rest.drop 2)
    else if c = 'Z' ∨ c = 'z' then some (0, rest)
    else if c = '+' then (readOffsetDigits rest).map fun (n, rest) => ((n : Int), rest)
    else if c = '-' ∨ c = '\u2212' then
      (readOffsetDigits rest).map fun (n, rest) => (-(n : Int), rest)
    else none

/-- The moment that a text gives. -/
def read? (text : String) : Option Timestamp := do
  let (date, s) ← readDate text.toList
  let s ← readChar ['T', 't', ' '] s
  let ((secondOfDay, nanos), s) ← readTime s
  let (offset, s) ← readOffset s
  let t : Timestamp := { seconds := day * date.toNumber + secondOfDay - offset, nanos }
  if (skipWhiteSpace s).isEmpty && isKnownYear t.date.year then some t else none

/-- A moment given in another zone. -/
example : read? "2000-02-29T01:00:00.5+01:00" = some ⟨951782400, 500000000⟩ := by decide +kernel

/-- White space at the end. -/
example : read? "1970-01-01T00:00:01Z\r\n" = some ⟨1, 0⟩ := by decide +kernel

/-- The year 1900 had no leap day. -/
example : read? "1900-02-29T00:00:00Z" = none := by decide +kernel

end Timestamp
end StateMachine
