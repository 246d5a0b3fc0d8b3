/-
# Dates and their numbers

The date with a given number exists, and the given number is its number, over all integers. The days
of a cycle of four hundred years are told apart by the years that have passed and the day of the
year (`position_yearOfCycle`); a year has a day 365, counted from zero, only if a leap day ends it.
Dates come in the order of their numbers, as far as their years go.
-/

import StateMachine.Time.Calendar

namespace StateMachine
namespace Date

/-- The year of a cycle that begins in March, and the day of that year, that the given days of the
cycle come to. -/
structure Position (days passed dayOfYear : Nat) : Prop where
  passed_lt : passed < 400
  days_eq : days + passed / 100 = 365 * passed + passed / 4 + dayOfYear
  dayOfYear_le : dayOfYear ≤ 365
  /-- Only a year that a leap day ends is longer than 365 days. -/
  leap : dayOfYear = 365 → (passed + 1) % 4 = 0 ∧ ((passed + 1) % 100 ≠ 0 ∨ passed + 1 = 400)

/-- Every day of a cycle has a position, which dividing by centuries, groups of four years and years
finds. -/
theorem position_yearOfCycle {days : Nat} (h : days < 146097) :
    Position days (yearOfCycle days).1 (yearOfCycle days).2 := by
  obtain ⟨century, hcentury⟩ : ∃ q, min (days / 36524) 3 = q := ⟨_, rfl⟩
  obtain ⟨d₁, hd₁⟩ : ∃ d, days - 36524 * century = d := ⟨_, rfl⟩
  obtain ⟨group, hgroup⟩ : ∃ g, d₁ / 1461 = g := ⟨_, rfl⟩
  obtain ⟨d₂, hd₂⟩ : ∃ d, d₁ - 1461 * group = d := ⟨_, rfl⟩
  obtain ⟨year, hyear⟩ : ∃ y, min (d₂ / 365) 3 = y := ⟨_, rfl⟩
  -- The last century of a cycle alone has a day 36524.
  have hdays₁ : d₁ ≤ 36524 ∧ (d₁ = 36524 → century = 3) := by omega
  have hdays₂ : group ≤ 24 ∧ d₂ ≤ 1460 := by omega
  have hyears : year ≤ 3 ∧ d₂ - 365 * year ≤ 365 ∧ (d₂ - 365 * year = 365 → d₂ = 1460) := by omega
  have hposition : yearOfCycle days =
      (100 * century + 4 * group + year, d₂ - 365 * year) := by
    simp only [yearOfCycle, hcentury, hd₁, hgroup, hd₂, hyear]
  have hhundreds : (100 * century + 4 * group + year) / 100 = century := by omega
  have hfours : (100 * century + 4 * group + year) / 4 = 25 * century + group := by omega
  rw [hposition]
  constructor
  · omega
  · simp only [hhundreds, hfours]
    omega
  · exact hyears.2.1
  · simp only
    omega

/-- The date of a day, counted from zero, of a year that begins in March. -/
def ofDayOfYear (year : Int) (dayOfYear : Nat) : Date :=
  let month := (5 * dayOfYear + 2) / 153
  let day := dayOfYear - (153 * month + 2) / 5 + 1
  if month < 10 then { year, month := month + 3, day }
  else { year := year + 1, month := month - 9, day }

/-- The number of days before a year that begins in March. -/
def daysBefore (year : Int) : Int := 365 * year + year / 4 - year / 100 + year / 400

/-- The days before a year are those of the whole cycles and those of the years that have passed
since. -/
theorem daysBefore_cycle (cycle : Int) {passed : Nat} (h : passed < 400) :
    daysBefore (400 * cycle + passed) =
      146097 * cycle + (365 * passed + passed / 4 - passed / 100) := by
  have hfour : (400 * cycle + passed) / 4 = 100 * cycle + passed / 4 := by omega
  have hhundred : (400 * cycle + passed) / 100 = 4 * cycle + passed / 100 := by omega
  have hcycle : (400 * cycle + passed) / 400 = cycle := by omega
  rw [daysBefore, hfour, hhundred, hcycle]
  omega

/-- A year has at least 365 days. -/
theorem daysBefore_add_le {a b : Int} (h : a < b) : daysBefore a + 365 ≤ daysBefore b := by
  simp only [daysBefore]
  omega

section DayOfYear

variable {year : Int} {dayOfYear : Nat}

/-- The number of a date counts the days before its year and the days of the year before it. -/
theorem toNumber_ofDayOfYear (h : dayOfYear ≤ 365) :
    (ofDayOfYear year dayOfYear).toNumber = daysBefore year + dayOfYear - epoch := by
  obtain ⟨month, hmonth⟩ : ∃ m, (5 * dayOfYear + 2) / 153 = m := ⟨_, rfl⟩
  have hday : (153 * month + 2) / 5 + (dayOfYear - (153 * month + 2) / 5 + 1) - 1 = dayOfYear := by
    omega
  simp only [ofDayOfYear, hmonth]
  split
  · have hshift : (month + 3 + 9) % 12 = month := by omega
    simp only [toNumber, hshift, hday, if_neg (by omega : ¬ month + 3 ≤ 2), daysBefore]
  · have hshift : (month - 9 + 9) % 12 = month := by omega
    simp only [toNumber, hshift, hday, if_pos (by omega : month - 9 ≤ 2), daysBefore,
      Int.add_sub_cancel]

/-- Every fourth year is a leap year, but of full centuries only every fourth one. -/
theorem isLeap_iff : isLeap year ↔ year % 4 = 0 ∧ (year % 100 ≠ 0 ∨ year % 400 = 0) := by
  simp [isLeap]

/-- A date is valid if its month is one of the twelve and its day one of that month. -/
theorem isValid_iff {d : Date} :
    d.isValid ↔ 1 ≤ d.month ∧ d.month ≤ 12 ∧ 1 ≤ d.day ∧ d.day ≤ monthLength d.year d.month := by
  simp [isValid, and_assoc]

/-- No month has more than 31 days. -/
theorem monthLength_le (year : Int) (month : Nat) : monthLength year month ≤ 31 := by
  unfold monthLength
  split
  · split <;> decide
  · split <;> decide

/-- A day of a year has a valid date; only a year that a leap day ends has a day 365. -/
theorem isValid_ofDayOfYear (h : dayOfYear ≤ 365) (hleap : dayOfYear = 365 → isLeap (year + 1)) :
    (ofDayOfYear year dayOfYear).isValid := by
  obtain ⟨month, hmonth⟩ : ∃ m, (5 * dayOfYear + 2) / 153 = m := ⟨_, rfl⟩
  have hle : month ≤ 11 := by omega
  rw [isValid_iff]
  simp only [ofDayOfYear, hmonth]
  split
  · refine ⟨by simp, by simp; omega, by simp, ?_⟩
    simp only [monthLength]
    split
    · omega
    · split <;> omega
  · refine ⟨by simp; omega, by simp; omega, by simp, ?_⟩
    simp only [monthLength]
    split
    · -- February: its last day but one is the last of a common year.
      split
      · omega
      · next hcommon =>
        have hne : dayOfYear ≠ 365 := fun h365 => hcommon (hleap h365)
        omega
    · split <;> omega

/-- January and February end the year that has begun in March, and belong to the next one. -/
theorem year_ofDayOfYear :
    (ofDayOfYear year dayOfYear).year = if dayOfYear < 306 then year else year + 1 := by
  simp only [ofDayOfYear]
  split <;> split <;> first | rfl | omega

end DayOfYear

/-- **Every number is that of a day of some year.** -/
theorem exists_ofDayOfYear (n : Int) : ∃ (year : Int) (dayOfYear : Nat), dayOfYear ≤ 365 ∧
    (dayOfYear = 365 → isLeap (year + 1)) ∧ n + epoch = daysBefore year + dayOfYear ∧
      ofNumber n = ofDayOfYear year dayOfYear := by
  obtain ⟨days, hdays⟩ : ∃ d, ((n + epoch) % 146097).toNat = d := ⟨_, rfl⟩
  have hdays' : days < 146097 := by omega
  obtain ⟨hpassed, heq, hle, hleap⟩ := position_yearOfCycle hdays'
  refine ⟨400 * ((n + epoch) / 146097) + (yearOfCycle days).1, (yearOfCycle days).2, hle,
    fun h365 => ?_, ?_, ?_⟩
  · obtain ⟨hfour, hhundred⟩ := hleap h365
    rw [isLeap_iff]
    omega
  · rw [daysBefore_cycle _ hpassed]
    omega
  · simp only [ofNumber, hdays]
    rfl

/-- **The date with a given number has that number.** -/
theorem toNumber_ofNumber (n : Int) : (ofNumber n).toNumber = n := by
  obtain ⟨year, dayOfYear, hle, -, hn, hdate⟩ := exists_ofDayOfYear n
  rw [hdate, toNumber_ofDayOfYear hle]
  omega

/-- The date with a given number exists. -/
theorem isValid_ofNumber (n : Int) : (ofNumber n).isValid := by
  obtain ⟨year, dayOfYear, hle, hleap, -, hdate⟩ := exists_ofDayOfYear n
  rw [hdate]
  exact isValid_ofDayOfYear hle hleap

/-- The number of the first day of a year. -/
def firstDay (year : Int) : Int := toNumber ⟨year, 1, 1⟩

/-- Years come in the order of their days. -/
theorem year_ofNumber_iff (n year : Int) : year ≤ (ofNumber n).year ↔ firstDay year ≤ n := by
  obtain ⟨y, dayOfYear, hle, hleap, hn, hdate⟩ := exists_ofDayOfYear n
  have hfirst : firstDay year = daysBefore (year - 1) + 306 - epoch := by
    simp [firstDay, toNumber, daysBefore]
  rw [hdate, year_ofDayOfYear, hfirst]
  rcases Int.lt_trichotomy (year - 1) y with hlt | rfl | hlt
  · have hbefore := daysBefore_add_le hlt
    split <;> omega
  · split <;> omega
  · have hbefore := daysBefore_add_le hlt
    split <;> omega

end Date
end StateMachine
