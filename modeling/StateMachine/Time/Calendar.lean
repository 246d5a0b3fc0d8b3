/-
# The calendar

Dates of the Gregorian calendar, extended to all years, and their numbers: the number of a date is
the count of days from the first of January 1970, negative before it.

The count runs through years that begin in March, so that a leap day is the last day of its year
and the months' lengths follow one rule; four hundred years have 146097 days.
-/

namespace StateMachine

/-- A day of the calendar. The year before year 1 is year 0. -/
structure Date where
  year : Int
  month : Nat
  day : Nat
  deriving DecidableEq, Repr

namespace Date

/-- The year has a leap day. -/
def isLeap (year : Int) : Bool := year % 4 == 0 && (year % 100 != 0 || year % 400 == 0)

/-- The number of days of a month. -/
def monthLength (year : Int) (month : Nat) : Nat :=
  if month = 2 then (if isLeap year then 29 else 28)
  else if month = 4 ∨ month = 6 ∨ month = 9 ∨ month = 11 then 30
  else 31

/-- The date exists. -/
def isValid (d : Date) : Bool :=
  decide (1 ≤ d.month) && decide (d.month ≤ 12) && decide (1 ≤ d.day) &&
    decide (d.day ≤ monthLength d.year d.month)

/-- The number of days from the first of March of year 0 to the first of January 1970. -/
def epoch : Int := 719468

/-- The number of a date. -/
def toNumber (d : Date) : Int :=
  let year := if d.month ≤ 2 then d.year - 1 else d.year
  let month := (d.month + 9) % 12
  365 * year + year / 4 - year / 100 + year / 400 + ((153 * month + 2) / 5 + d.day - 1 : Nat) -
    epoch

/-- The years that have passed, and the days of the year, after the given days of a cycle of four
hundred years. Such a cycle has four centuries, a century twenty-five groups of four years, and a
group four years, but for the leap days at the end of each of them: the last year of a group and
the last century of a cycle are a day longer, and the last group of a century a day shorter. -/
def yearOfCycle (days : Nat) : Nat × Nat :=
  let century := min (days / 36524) 3
  let days := days - 36524 * century
  let group := days / 1461
  let days := days - 1461 * group
  let year := min (days / 365) 3
  (100 * century + 4 * group + year, days - 365 * year)

/-- The date with the given number. -/
def ofNumber (n : Int) : Date :=
  let days := n + epoch
  let cycle := days / 146097
  let (passed, dayOfYear) := yearOfCycle (days % 146097).toNat
  let month := (5 * dayOfYear + 2) / 153
  let day := dayOfYear - (153 * month + 2) / 5 + 1
  let year := 400 * cycle + passed
  if month < 10 then { year, month := month + 3, day }
  else { year := year + 1, month := month - 9, day }

example : ofNumber 0 = ⟨1970, 1, 1⟩ ∧ ofNumber (-1) = ⟨1969, 12, 31⟩ := by decide

example : toNumber ⟨2000, 2, 29⟩ = 11016 ∧ ofNumber 11016 = ⟨2000, 2, 29⟩ := by decide

end Date
end StateMachine
