/-
# Hexadecimal digits

Digits are written in lower case and read in either. A numeral read digit by digit, the highest
first, gives its value.
-/

namespace StateMachine
namespace Hex

/-- The digit with the given value below sixteen. -/
def digit (n : Nat) : Char := n.digitChar

/-- The value of a digit. -/
def value? (c : Char) : Option Nat :=
  if '0' ≤ c ∧ c ≤ '9' then some (c.toNat - '0'.toNat)
  else if 'a' ≤ c ∧ c ≤ 'f' then some (c.toNat - 'a'.toNat + 10)
  else if 'A' ≤ c ∧ c ≤ 'F' then some (c.toNat - 'A'.toNat + 10)
  else none

/-- The value of a row of digits; `none` if one of them is no digit. -/
def numeral? (l : List Char) : Option Nat :=
  l.foldlM (fun n c => (value? c).map fun d => 16 * n + d) 0

/-- A number written with as many digits as it needs. -/
def numeral (n : Nat) : List Char := Nat.toDigits 16 n

/-- Reading a digit gives back the value it was written for. -/
theorem value?_digit {n : Nat} (h : n < 16) : value? (digit n) = some n := by
  revert n
  decide

variable {a b c d : Char} {n : Nat}

/-- Hexadecimal digits are not control characters. -/
theorem le_toNat_of_value? (h : value? c = some n) : 0x20 ≤ c.toNat := by
  have hfirst (e : Char) (he : 0x20 ≤ e.toNat) (hc : e ≤ c) : 0x20 ≤ c.toNat :=
    Nat.le_trans he (UInt32.le_iff_toNat_le.1 hc)
  unfold value? at h
  split at h
  · next hc => exact hfirst '0' (by decide) hc.1
  · split at h
    · next hc => exact hfirst 'a' (by decide) hc.1
    · split at h
      · next hc => exact hfirst 'A' (by decide) hc.1
      · cases h

/-- All characters of a numeral are digits. -/
theorem exists_values (h : numeral? [a, b, c, d] = some n) :
    (∃ i, value? a = some i) ∧ (∃ i, value? b = some i) ∧ (∃ i, value? c = some i) ∧
      ∃ i, value? d = some i := by
  simp only [numeral?, List.foldlM_cons, List.foldlM_nil, Option.bind_eq_bind,
    Option.bind_eq_some_iff, Option.map_eq_some_iff] at h
  obtain ⟨_, ⟨i, hi, -⟩, _, ⟨j, hj, -⟩, _, ⟨k, hk, -⟩, _, ⟨m, hm, -⟩, -⟩ := h
  exact ⟨⟨i, hi⟩, ⟨j, hj⟩, ⟨k, hk⟩, m, hm⟩

end Hex
end StateMachine
