/-
# Reading numbers back

A number is read up to the end of its exponent, its fraction or its integer part, whichever it has
last; what follows must not look like the next part. The numeral of a natural number is a number of
JSON, and read as that natural number if a machine word holds it. No other number is read as a
natural number (`Numeral.nat?_eq_some_iff`).
-/

import StateMachine.Json.Number
import StateMachine.Proofs.Text.Decimal

namespace StateMachine
namespace Json

/-- One digit or more. -/
def Digits (l : List Char) : Prop := l ≠ [] ∧ ∀ c ∈ l, c.isDigit

/-- An integer part, without needless zeros. -/
inductive Integer : List Char → Prop
  | zero : Integer ['0']
  | digits {l : List Char} : Digits l → l.head? ≠ some '0' → Integer l

/-- A fraction, or nothing. -/
inductive Fraction : List Char → Prop
  | nil : Fraction []
  | digits {l : List Char} : Digits l → Fraction ('.' :: l)

/-- An exponent, or nothing. -/
inductive Exponent : List Char → Prop
  | nil : Exponent []
  | digits {c : Char} {sign l : List Char} :
      c = 'e' ∨ c = 'E' → sign = [] ∨ sign = ['+'] ∨ sign = ['-'] → Digits l →
        Exponent (c :: (sign ++ l))

/-- A number as it may be written. -/
inductive Numeral : List Char → Prop
  | mk {sign integer fraction exponent : List Char} :
      sign = [] ∨ sign = ['-'] → Integer integer → Fraction fraction → Exponent exponent →
        Numeral (sign ++ integer ++ fraction ++ exponent)

/-- What follows is no part of a number. -/
def EndsNumber (s : List Char) : Prop :=
  ∀ c ∈ s.head?, ¬ c.isDigit ∧ c ≠ '.' ∧ c ≠ 'e' ∧ c ≠ 'E'

section Read

variable {l s : List Char} {c : Char}

/-- A row of digits begins with a digit. -/
theorem Digits.exists_cons (h : Digits l) : ∃ c l', l = c :: l' ∧ c.isDigit := by
  obtain ⟨c, l', rfl⟩ := List.exists_cons_of_ne_nil h.1
  exact ⟨c, l', rfl, h.2 c List.mem_cons_self⟩

/-- A digit is different from whatever is none. -/
theorem ne_of_isDigit {d : Char} (hc : c.isDigit) (hd : d.isDigit = false) : c ≠ d := by
  rintro rfl
  rw [hc] at hd
  cases hd

/-- The sign of an exponent is read, if there is one, and the digits are left. -/
theorem readExponentSign_append {sign : List Char} (hsign : sign = [] ∨ sign = ['+'] ∨ sign = ['-'])
    (hl : Digits l) : readExponentSign (sign ++ (l ++ s)) = (sign, l ++ s) := by
  obtain ⟨c, l, rfl, hc⟩ := hl.exists_cons
  rcases hsign with rfl | rfl | rfl
  · rw [List.nil_append, List.cons_append, readExponentSign]
    · rintro rest ⟨⟩
      cases hc
    · rintro rest ⟨⟩
      cases hc
  · rfl
  · rfl

/-- An exponent is read whole if what follows is no part of a number. -/
theorem readExponent_append (h : Exponent l) (hs : EndsNumber s) :
    readExponent (l ++ s) = some (l, s) := by
  cases h with
  | nil =>
    cases s with
    | nil => rfl
    | cons c s =>
      obtain ⟨-, -, he, hE⟩ := hs c rfl
      exact if_neg (by simp [he, hE])
  | digits hc hsign hl =>
    have hdigit : Decimal.NoDigit s := fun c h => (hs c h).1
    rw [List.cons_append, List.append_assoc, readExponent, if_pos hc]
    simp only [readExponentSign_append hsign hl, Decimal.read_digits hl.2 hl.1 hdigit,
      Option.map_some]

/-- A fraction is read whole if neither a digit nor a point follows. -/
theorem readFraction_append (h : Fraction l) (hdigit : Decimal.NoDigit s)
    (hpoint : s.head? ≠ some '.') : readFraction (l ++ s) = some (l, s) := by
  cases h with
  | nil =>
    rw [List.nil_append, readFraction]
    rintro rest rfl
    exact hpoint rfl
  | digits hl =>
    rw [List.cons_append, readFraction, Decimal.read_digits hl.2 hl.1 hdigit, Option.map_some]

/-- An integer part is read whole if no digit follows. -/
theorem readInteger_append (h : Integer l) (hdigit : Decimal.NoDigit s) :
    readInteger (l ++ s) = some (l, s) := by
  cases h with
  | zero => rfl
  | digits hl hzero =>
    obtain ⟨c, l, rfl, hc⟩ := hl.exists_cons
    rw [readInteger, Decimal.read_digits hl.2 hl.1 hdigit]
    rintro rest ⟨⟩
    exact hzero rfl

/-- What comes after a fraction does not go on with a digit or a point. -/
theorem Exponent.append_ends (h : Exponent l) (hs : EndsNumber s) :
    Decimal.NoDigit (l ++ s) ∧ (l ++ s).head? ≠ some '.' := by
  cases h with
  | nil => exact ⟨fun c hc => (hs c hc).1, fun hc => (hs _ hc).2.1 rfl⟩
  | digits hc =>
    rcases hc with rfl | rfl <;> exact ⟨by simp [Char.isDigit], by simp⟩

/-- Neither a fraction begins with a digit nor, where it is absent, what follows it. -/
theorem Fraction.append_noDigit (h : Fraction l) (hdigit : Decimal.NoDigit s) :
    Decimal.NoDigit (l ++ s) := by
  cases h with
  | nil => exact hdigit
  | digits => simp [Char.isDigit]

/-- An integer part begins with a digit. -/
theorem Integer.head_isDigit (h : Integer l) : ∃ c l', l = c :: l' ∧ c.isDigit := by
  cases h with
  | zero => exact ⟨'0', [], rfl, rfl⟩
  | digits hl => exact hl.exists_cons

/-- The sign of a number is read, if there is one, and the integer part is left. -/
theorem readSign_append {sign : List Char} (hsign : sign = [] ∨ sign = ['-']) (h : Integer l) :
    readSign (sign ++ (l ++ s)) = (sign, l ++ s) := by
  obtain ⟨c, l, rfl, hc⟩ := h.head_isDigit
  rcases hsign with rfl | rfl
  · rw [List.nil_append, List.cons_append, readSign]
    rintro rest ⟨⟩
    cases hc
  · rfl

/-- **A number is read as far as it goes.** -/
theorem Numeral.readNumber_append (h : Numeral l) (hs : EndsNumber s) :
    readNumber (l ++ s) = some (l, s) := by
  obtain ⟨hsign, hinteger, hfraction, hexponent⟩ := h
  obtain ⟨hdigit, hpoint⟩ := hexponent.append_ends hs
  simp only [List.append_assoc]
  rw [readNumber, readSign_append hsign hinteger]
  simp only [readInteger_append hinteger (hfraction.append_noDigit hdigit), Option.bind_some,
    readFraction_append hfraction hdigit hpoint, readExponent_append hexponent hs, Option.map_some,
    List.append_assoc]

/-- A number begins with a digit or a minus sign. -/
theorem Numeral.exists_cons (h : Numeral l) : ∃ c l', l = c :: l' ∧ (c = '-' ∨ c.isDigit) := by
  obtain ⟨hsign, hinteger, -, -⟩ := h
  obtain ⟨c, l, rfl, hc⟩ := hinteger.head_isDigit
  rcases hsign with rfl | rfl
  · exact ⟨c, _, rfl, .inr hc⟩
  · exact ⟨'-', _, rfl, .inl rfl⟩

end Read

section Nat

variable {n : Nat}

/-- The numeral of a natural number is a number of JSON. -/
theorem numeral_numeral (n : Nat) : Numeral (Decimal.numeral n) := by
  have hinteger : Integer (Decimal.numeral n) := by
    obtain ⟨c, l, hl⟩ := List.exists_cons_of_ne_nil (Decimal.numeral_ne_nil (n := n))
    by_cases hc : c = '0'
    · subst hc
      rw [hl, Decimal.eq_nil_of_numeral_eq_zero_cons hl]
      exact .zero
    · refine .digits ⟨Decimal.numeral_ne_nil, fun d => Decimal.isDigit_of_mem_numeral⟩ ?_
      rw [hl]
      simpa using hc
  simpa using Numeral.mk (.inl rfl) hinteger .nil .nil

/-- A natural number that a machine word holds is read back. -/
theorem nat?_ofNat (h : n < wordBound) : nat? (ofNat n) = some n := by
  have hdigits : (Decimal.numeral n).all Char.isDigit :=
    List.all_eq_true.2 fun c => Decimal.isDigit_of_mem_numeral
  rw [ofNat, nat?, Decimal.value_numeral]
  exact if_pos ⟨hdigits, h⟩

variable {l : List Char}

/-- An integer part is the numeral of its value. -/
theorem Integer.numeral_value (h : Integer l) : Decimal.numeral (Decimal.value l) = l := by
  cases h with
  | zero => rfl
  | digits hl hzero => exact Decimal.numeral_value hl.2 hl.1 fun h => absurd h hzero

/-- A number made of digits alone is an integer part. -/
theorem Numeral.integer_of_digits (h : Numeral l) (hdigits : ∀ c ∈ l, c.isDigit) : Integer l := by
  obtain ⟨hsign, hinteger, hfraction, hexponent⟩ := h
  have hmem {c : Char} (hc : c.isDigit = false) : c ∉ _ := fun h => by
    rw [hdigits c h] at hc
    cases hc
  rcases hsign with rfl | rfl
  · cases hfraction with
    | digits => exact absurd (by simp) (hmem (c := '.') rfl)
    | nil =>
      cases hexponent with
      | nil => simpa using hinteger
      | digits hc =>
        rcases hc with rfl | rfl
        · exact absurd (by simp) (hmem (c := 'e') rfl)
        · exact absurd (by simp) (hmem (c := 'E') rfl)
  · exact absurd (by simp) (hmem (c := '-') rfl)

/-- **Of the numbers, the numerals below the bound are read as natural numbers,** and no others:
none with a sign, a fraction or an exponent, and none that a machine word does not hold. -/
theorem Numeral.nat?_eq_some_iff (h : Numeral l) :
    nat? (.number l) = some n ↔ n < wordBound ∧ Json.number l = ofNat n := by
  constructor
  · intro hn
    simp only [nat?, Option.ite_none_right_eq_some, List.all_eq_true, Option.some.injEq] at hn
    obtain ⟨⟨hdigits, hbound⟩, rfl⟩ := hn
    exact ⟨hbound, by rw [ofNat, (h.integer_of_digits hdigits).numeral_value]⟩
  · rintro ⟨hbound, hl⟩
    rw [hl, nat?_ofNat hbound]

end Nat
end Json
end StateMachine
