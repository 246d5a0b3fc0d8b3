/-
# Moments are read back

A moment in a year of four digits is written without a sign, each part of it with a fixed number of
digits, so that each reader takes just the part that was written for it. Cutting the fraction to
three or six digits loses only zeros, which reading it adds again.
-/

import StateMachine.Proofs.Text.Decimal
import StateMachine.Proofs.Time.Calendar
import StateMachine.Time.Reader

namespace StateMachine
namespace Timestamp

section Parts

variable {n : Nat} {c : Char} {s : List Char}

/-- No digit is white space. -/
theorem not_isWhiteSpace_of_isDigit (h : c.isDigit) : ¬ isWhiteSpace c := by
  have hrange : 48 ≤ c.toNat ∧ c.toNat ≤ 57 := by
    simp only [Char.isDigit, Bool.and_eq_true, decide_eq_true_eq] at h
    exact ⟨UInt32.le_iff_toNat_le.1 h.1, UInt32.le_iff_toNat_le.1 h.2⟩
  simp only [isWhiteSpace, Bool.or_eq_true, Bool.and_eq_true, decide_eq_true_eq, beq_iff_eq]
  omega

/-- Nothing is skipped before a character that is no white space. -/
theorem skipWhiteSpace_cons (h : ¬ isWhiteSpace c) : skipWhiteSpace (c :: s) = c :: s :=
  List.dropWhile_cons_of_neg h

/-- Nothing is skipped before a number. -/
theorem skipWhiteSpace_padded (width n : Nat) (s : List Char) :
    skipWhiteSpace (Decimal.padded width n ++ s) = Decimal.padded width n ++ s := by
  obtain ⟨c, l, hl, hc⟩ := Decimal.exists_padded_eq_cons width n
  rw [hl, List.cons_append, skipWhiteSpace_cons (not_isWhiteSpace_of_isDigit hc)]

/-- A padded numeral is read as far as its width goes, whatever follows. -/
theorem readAtMost_padded {width : Nat} (hwidth : 0 < width) (hn : n < 10 ^ width) :
    Decimal.readAtMost width (Decimal.padded width n ++ s) =
      some (Decimal.padded width n, s) :=
  Decimal.readAtMost_digits (fun _ => Decimal.isDigit_of_mem_padded) Decimal.padded_ne_nil
    (Decimal.length_padded hwidth hn)

/-- A number of two digits is read back, whatever follows. -/
theorem readPart_padded (hn : n < 100) : readPart (Decimal.padded 2 n ++ s) = some (n, s) := by
  rw [readPart, skipWhiteSpace_padded, readAtMost_padded (by decide) hn, Option.map_some]
  simp only [Decimal.value_padded]

/-- A separator is read where it stands. -/
theorem readSeparator_cons (hc : ¬ isWhiteSpace c) : readSeparator c (c :: s) = some s := by
  rw [readSeparator, skipWhiteSpace_cons hc, readChar, if_pos (List.mem_singleton_self c)]

/-- A year of four digits is read back, whatever follows. -/
theorem readYear_padded (hn : n < 10000) :
    readYear (Decimal.padded 4 n ++ s) = some ((n : Int), s) := by
  obtain ⟨c, l, hl, hc⟩ := Decimal.exists_padded_eq_cons 4 n
  have hread : readYear (Decimal.padded 4 n ++ s) =
      (Decimal.readAtMost 4 (Decimal.padded 4 n ++ s)).map
        fun read => (1 * (Decimal.value read.1 : Int), read.2) := by
    rw [readYear, skipWhiteSpace_padded, hl, List.cons_append]
    split
    · next heq =>
      obtain ⟨rfl, -⟩ := List.cons.inj heq
      cases hc
    · next heq =>
      obtain ⟨rfl, -⟩ := List.cons.inj heq
      cases hc
    · rfl
  rw [hread, readAtMost_padded (by decide) hn, Option.map_some, Decimal.value_padded, Int.one_mul]

end Parts

/-- A valid date of a year between 0 and 9999 is read back, whatever follows. -/
theorem readDate_writeDate {d : Date} {s : List Char} (hyear : 0 ≤ d.year ∧ d.year ≤ 9999)
    (hvalid : d.isValid) : readDate (writeDate d ++ s) = some (d, s) := by
  obtain ⟨year, month, day⟩ := d
  obtain ⟨year, rfl⟩ := Int.eq_ofNat_of_zero_le hyear.1
  obtain ⟨-, hmonth, -, hday⟩ := Date.isValid_iff.1 hvalid
  have hlength := Date.monthLength_le year month
  simp only at hyear hmonth hday
  have hknown : isKnownYear year := by
    simp only [isKnownYear, Bool.and_eq_true, decide_eq_true_eq]
    omega
  have hhyphen : ¬ isWhiteSpace '-' := by decide
  simp only [writeDate, writeYear, if_pos hyear, Int.toNat_natCast, List.append_assoc,
    List.cons_append]
  simp only [readDate, Option.bind_eq_bind, Option.bind_some,
    readYear_padded (by omega : year < 10000), readSeparator_cons hhyphen,
    readPart_padded (by omega : month < 100), readPart_padded (by omega : day < 100), hknown,
    hvalid, Bool.and_self, if_true]

section Fraction

variable {width n : Nat} {s : List Char}

/-- The digits of a fraction stand for nanoseconds, according to their number. -/
theorem fractionNanos_padded (hwidth : 0 < width) (hle : width ≤ 9) (hn : n < 10 ^ width) :
    fractionNanos (Decimal.padded width n) = 10 ^ (9 - width) * n := by
  have htake : (Decimal.padded width n ++ List.replicate 9 '0').take 9 =
      Decimal.padded width n ++ List.replicate (9 - width) '0' := by
    rw [List.take_append, Decimal.length_padded hwidth hn, List.take_replicate,
      List.take_of_length_le (by rw [Decimal.length_padded hwidth hn]; exact hle)]
    congr 2
    omega
  rw [fractionNanos, htake, Decimal.value_append_replicate, Decimal.value_padded]

/-- A fraction that was cut to fewer digits is read back if only zeros were cut off. -/
theorem readFraction_padded {nanos : Nat} (hwidth : 0 < width) (hle : width ≤ 9)
    (hn : n < 10 ^ width) (hexact : 10 ^ (9 - width) * n = nanos) (hs : Decimal.NoDigit s) :
    readFraction ('.' :: Decimal.padded width n ++ s) = some (nanos, s) := by
  have hdigits : ∀ c ∈ Decimal.padded width n, c.isDigit :=
    fun _ => Decimal.isDigit_of_mem_padded
  have hread := Decimal.read_digits hdigits Decimal.padded_ne_nil hs
  rw [List.cons_append, readFraction, hread, Option.map_some]
  simp only [fractionNanos_padded hwidth hle hn, hexact]

/-- **The fewest digits that are exact** are enough to read the nanoseconds back. -/
theorem readFraction_writeFraction (hn : n < second) (hs : Decimal.NoDigit s)
    (hpoint : s.head? ≠ some '.') : readFraction (writeFraction n ++ s) = some (n, s) := by
  have hbound : n < 10 ^ 9 := hn
  unfold writeFraction
  split
  · next hzero =>
    rw [hzero, List.nil_append, readFraction]
    rintro rest rfl
    exact hpoint rfl
  · split
    · exact readFraction_padded (by decide) (by decide) (by omega) (by omega) hs
    · split
      · exact readFraction_padded (by decide) (by decide) (by omega) (by omega) hs
      · exact readFraction_padded (by decide) (by decide) hbound (by omega) hs

end Fraction

/-- A time of day is read back, with the nanoseconds that its fraction stands for. -/
theorem readTime_writeTime {secondOfDay nanos : Nat} {s : List Char} (hday : secondOfDay < day)
    (hnanos : nanos < second) :
    readTime (writeTime secondOfDay nanos ++ 'Z' :: s) = some ((secondOfDay, nanos), 'Z' :: s) := by
  have hcolon : ¬ isWhiteSpace ':' := by decide
  have hleap : nanos / second = 0 := Nat.div_eq_of_lt hnanos
  have hfraction : readFraction (writeFraction nanos ++ 'Z' :: s) = some (nanos, 'Z' :: s) :=
    readFraction_writeFraction hnanos (by simp [Char.isDigit]) (by simp)
  have hparts : secondOfDay / 3600 < 24 ∧ secondOfDay / 60 % 60 < 60 ∧ secondOfDay % 60 < 60 ∧
      3600 * (secondOfDay / 3600) + 60 * (secondOfDay / 60 % 60) + secondOfDay % 60 =
        secondOfDay := by
    rw [day] at hday
    omega
  obtain ⟨hhour, hminute, hsec, hsum⟩ := hparts
  simp only [writeTime, hleap, Nat.add_zero, Nat.mod_eq_of_lt hnanos, List.append_assoc,
    List.cons_append]
  simp only [readTime, Option.bind_eq_bind, Option.bind_some,
    readPart_padded (by omega : secondOfDay / 3600 < 100),
    readPart_padded (by omega : secondOfDay / 60 % 60 < 100),
    readPart_padded (by omega : secondOfDay % 60 < 100), readSeparator_cons hcolon, hfraction,
    hhour, hminute, hsec, and_self, if_true, hsum,
    skipWhiteSpace_cons (by decide : ¬ isWhiteSpace 'Z')]

/-- The moment is in a year of four digits, and in no leap second. -/
structure Plain (t : Timestamp) : Prop where
  year : 0 ≤ t.date.year ∧ t.date.year ≤ 9999
  nanos : t.nanos < second

/-- The years of four digits begin and end with these seconds. -/
theorem plain_iff (t : Timestamp) :
    t.Plain ↔ -62167219200 ≤ t.seconds ∧ t.seconds < 253402300800 ∧ t.nanos < second := by
  have hfirst : Date.firstDay 0 = -719528 ∧ Date.firstDay 10000 = 2932897 := by decide
  have hstart : 0 ≤ t.date.year ↔ -719528 ≤ t.seconds / day :=
    hfirst.1 ▸ Date.year_ofNumber_iff _ 0
  have hend : 10000 ≤ t.date.year ↔ 2932897 ≤ t.seconds / day :=
    hfirst.2 ▸ Date.year_ofNumber_iff _ 10000
  simp only [day] at hstart hend
  constructor
  · rintro ⟨hyear, hnanos⟩
    omega
  · rintro ⟨hlow, hhigh, hnanos⟩
    exact ⟨by omega, hnanos⟩

/-- **A plain moment is read back.** -/
theorem read?_write {t : Timestamp} (ht : t.Plain) : read? (String.ofList t.write) = some t := by
  obtain ⟨hyear, hnanos⟩ := ht
  have hsecond : t.secondOfDay < day := by
    simp only [secondOfDay, day]
    omega
  have hknown : isKnownYear t.date.year := by
    simp only [isKnownYear, Bool.and_eq_true, decide_eq_true_eq]
    omega
  have hseconds : day * t.date.toNumber + t.secondOfDay - 0 = t.seconds := by
    rw [date, Date.toNumber_ofNumber, secondOfDay]
    simp only [day]
    omega
  have hdate (s : List Char) : readDate (writeDate t.date ++ s) = some (t.date, s) :=
    readDate_writeDate hyear (Date.isValid_ofNumber _)
  have hchar (s : List Char) : readChar ['T', 't', ' '] ('T' :: s) = some s := rfl
  have hoffset : readOffset ['Z'] = some (0, []) := rfl
  simp only [read?, write, String.toList_ofList, List.append_assoc, List.cons_append]
  simp only [Option.bind_eq_bind, Option.bind_some, hdate, hchar,
    readTime_writeTime hsecond hnanos, hoffset, hseconds, hknown, skipWhiteSpace,
    List.dropWhile_nil, List.isEmpty_nil, Bool.and_self, if_true]

end Timestamp
end StateMachine
