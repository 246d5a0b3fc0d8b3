/-
# Reading numerals back

A row of digits is read up to the first character that is none. The numeral of a number is such a
row, gives back the number, and begins with a zero only if the number is zero; there is no other such
row with the same value. Filling it up with zeros does not change its value.
-/

import StateMachine.Text.Decimal
import Mathlib.Algebra.Group.Nat.Defs
import Mathlib.Data.List.Induction

namespace StateMachine
namespace Decimal

/-- The text does not go on with a digit. -/
def NoDigit (s : List Char) : Prop := ∀ c ∈ s.head?, ¬ c.isDigit

/-- The empty text does not begin with a digit. -/
@[simp] theorem noDigit_nil : NoDigit [] := fun _ h => by cases h

/-- A text does not begin with a digit just if its first character is none. -/
@[simp] theorem noDigit_cons {c : Char} {s : List Char} : NoDigit (c :: s) ↔ ¬ c.isDigit := by
  simp [NoDigit]

section Value

/-- Digits have the value that the library gives them. -/
theorem value_eq (l : List Char) : value l = Nat.ofDigitChars 10 l 0 :=
  Nat.ofDigitChars_eq_foldl.symm

/-- A natural number is the value of its numeral. -/
@[simp] theorem value_numeral (n : Nat) : value (numeral n) = n := by
  rw [value_eq, numeral, Nat.ofDigitChars_ten_toDigits]

/-- Zeros in front do not change the value. -/
@[simp] theorem value_padded (width n : Nat) : value (padded width n) = n := by
  rw [padded, value_eq, Nat.ofDigitChars_append, Nat.ofDigitChars_replicate_zero, Nat.mul_zero,
    ← value_eq, value_numeral]

/-- Each digit after a row of digits is worth one of ten times as many. -/
theorem value_append_replicate (l : List Char) (k : Nat) :
    value (l ++ List.replicate k '0') = 10 ^ k * value l := by
  rw [value_eq, Nat.ofDigitChars_append, Nat.ofDigitChars_replicate_zero, ← value_eq]

end Value

section Numeral

variable {n width : Nat} {c : Char}

/-- Every numeral has a digit. -/
theorem numeral_ne_nil : numeral n ≠ [] := Nat.toDigits_ne_nil

/-- A numeral consists of digits. -/
theorem isDigit_of_mem_numeral (h : c ∈ numeral n) : c.isDigit :=
  Nat.isDigit_of_mem_toDigits (by decide) (by decide) h

/-- A numeral that begins with a zero is that zero. -/
theorem eq_nil_of_numeral_eq_zero_cons {l : List Char} (h : numeral n = '0' :: l) : l = [] := by
  induction n using Nat.strongRecOn generalizing l with
  | ind n ih =>
    rw [numeral, Nat.toDigits_eq_if (by decide)] at h
    split at h
    · exact (List.cons.inj h).2.symm
    · rename_i hn
      obtain ⟨c, l', hl'⟩ := List.exists_cons_of_ne_nil (numeral_ne_nil (n := n / 10))
      change numeral (n / 10) ++ _ = _ at h
      rw [hl', List.cons_append] at h
      obtain ⟨rfl, -⟩ := List.cons.inj h
      -- All digits but the last would be a single zero, and the number below ten.
      obtain rfl := ih (n / 10) (by omega) hl'
      have hvalue := value_numeral (n / 10)
      rw [hl'] at hvalue
      have hzero : n / 10 = 0 := hvalue.symm
      omega

/-- The digits are ten characters that follow each other. -/
theorem toNat_of_isDigit (h : c.isDigit) : 48 ≤ c.toNat ∧ c.toNat ≤ 57 := by
  simp only [Char.isDigit, Bool.and_eq_true, decide_eq_true_eq] at h
  exact ⟨UInt32.le_iff_toNat_le.1 h.1, UInt32.le_iff_toNat_le.1 h.2⟩

/-- A digit is the one that is written for its value. -/
theorem digitChar_toNat_sub (h : c.isDigit) : Nat.digitChar (c.toNat - '0'.toNat) = c := by
  have hdigit : ∀ n < 58, 48 ≤ n → Nat.digitChar (n - '0'.toNat) = Char.ofNat n := by decide
  obtain ⟨hlow, hhigh⟩ := toNat_of_isDigit h
  rw [hdigit c.toNat (Nat.lt_succ_of_le hhigh) hlow, Char.ofNat_toNat]

/-- **A row of digits is the numeral of its value,** unless it begins with a needless zero. -/
theorem numeral_value {l : List Char} (hdigits : ∀ c ∈ l, c.isDigit) (hne : l ≠ [])
    (hzero : l.head? = some '0' → l = ['0']) : numeral (value l) = l := by
  induction l using List.reverseRecOn with
  | nil => exact absurd rfl hne
  | append_singleton l c ih =>
    have hc : c.isDigit := hdigits c (by simp)
    have hlt : c.toNat - '0'.toNat < 10 := by
      obtain ⟨-, hhigh⟩ := toNat_of_isDigit hc
      have hval : '0'.toNat = 48 := rfl
      omega
    have hvalue : value (l ++ [c]) = 10 * value l + (c.toNat - '0'.toNat) := by
      rw [value, List.foldl_append]
      rfl
    rw [hvalue, numeral]
    cases l with
    | nil =>
      rw [value, List.foldl_nil, Nat.mul_zero, Nat.zero_add, Nat.toDigits_of_lt_base hlt,
        digitChar_toNat_sub hc, List.nil_append]
    | cons d l =>
      -- A row that goes on with a digit does not begin with a zero, so its value is not zero.
      have hd : d ≠ '0' := by
        rintro rfl
        simpa using hzero rfl
      have hfirst : numeral (value (d :: l)) = d :: l :=
        ih (fun e he => hdigits e (List.mem_append_left _ he)) (List.cons_ne_nil _ _)
          fun h => absurd (Option.some.inj h) hd
      have hpos : value (d :: l) ≠ 0 := by
        intro h
        rw [h] at hfirst
        exact hd (List.cons.inj hfirst).1.symm
      rw [Nat.toDigits_of_base_le (by decide) (by omega)]
      have hquotient : (10 * value (d :: l) + (c.toNat - '0'.toNat)) / 10 = value (d :: l) := by
        omega
      have hremainder : (10 * value (d :: l) + (c.toNat - '0'.toNat)) % 10 = c.toNat - '0'.toNat := by
        omega
      rw [hquotient, hremainder, digitChar_toNat_sub hc, ← numeral, hfirst]

/-- A padded numeral has a digit. -/
theorem padded_ne_nil : padded width n ≠ [] := by
  simp [padded, numeral_ne_nil]

/-- A padded numeral consists of digits. -/
theorem isDigit_of_mem_padded (h : c ∈ padded width n) : c.isDigit := by
  rcases List.mem_append.1 h with h | h
  · rw [List.eq_of_mem_replicate h]
    rfl
  · exact isDigit_of_mem_numeral h

/-- A padded numeral begins with a digit. -/
theorem exists_padded_eq_cons (width n : Nat) : ∃ c l, padded width n = c :: l ∧ c.isDigit := by
  obtain ⟨c, l, hl⟩ := List.exists_cons_of_ne_nil (padded_ne_nil (n := n) : padded width n ≠ [])
  exact ⟨c, l, hl, isDigit_of_mem_padded (hl ▸ List.mem_cons_self)⟩

/-- A number that has few digits is filled up to exactly the width. -/
theorem length_padded (hwidth : 0 < width) (hn : n < 10 ^ width) :
    (padded width n).length = width := by
  have hlength : (numeral n).length ≤ width :=
    (Nat.length_toDigits_le_iff (by decide) hwidth).2 hn
  simp only [padded, List.length_append, List.length_replicate]
  omega

end Numeral

section Read

variable {digits rest : List Char} (hdigits : ∀ c ∈ digits, c.isDigit)

include hdigits

/-- Digits are taken up to what follows them, if that does not begin with a digit. -/
theorem takeWhile_digits (hrest : NoDigit rest) :
    (digits ++ rest).takeWhile Char.isDigit = digits := by
  rw [List.takeWhile_append_of_pos hdigits]
  cases rest with
  | nil => simp
  | cons c rest => simp [noDigit_cons.1 hrest]

/-- What follows digits is left when they are taken, if it does not begin with a digit. -/
theorem dropWhile_digits (hrest : NoDigit rest) :
    (digits ++ rest).dropWhile Char.isDigit = rest := by
  rw [List.dropWhile_append_of_pos hdigits]
  cases rest with
  | nil => rfl
  | cons c rest => simp [noDigit_cons.1 hrest]

/-- All digits are read, and no more. -/
theorem read_digits (hne : digits ≠ []) (hrest : NoDigit rest) :
    read (digits ++ rest) = some (digits, rest) := by
  rw [read, split, takeWhile_digits hdigits hrest, dropWhile_digits hdigits hrest,
    if_neg (by simpa using hne)]

/-- A row of as many digits as are looked at is read, whatever follows. -/
theorem readAtMost_digits {width : Nat} (hne : digits ≠ []) (hwidth : digits.length = width) :
    readAtMost width (digits ++ rest) = some (digits, rest) := by
  have htake : ((digits ++ rest).take width).takeWhile Char.isDigit = digits := by
    rw [← hwidth, List.take_left]
    simpa using takeWhile_digits hdigits noDigit_nil
  simp only [readAtMost, htake, List.drop_left]
  rw [if_neg (by simpa using hne)]

end Read

end Decimal
end StateMachine
