/-
# Reading texts back

What may stand between the quotes of a text is a `Lexeme`: characters other than the quote, the
backslash and the control characters, and escapes by letter or by number. Reading splits off exactly
such a lexeme. What is written for a text is one, and stands for that text alone.
-/

import StateMachine.Json.Reader

namespace StateMachine
namespace Json

/-- What may stand between the quotes of a text. -/
inductive Lexeme : List Char → Prop
  | nil : Lexeme []
  | char {c : Char} {l : List Char} :
      c ≠ '"' → c ≠ '\\' → 0x20 ≤ c.toNat → Lexeme l → Lexeme (c :: l)
  | escape {e c : Char} {l : List Char} :
      escaped? e = some c → Lexeme l → Lexeme ('\\' :: e :: l)
  | unit {a b c d : Char} {n : Nat} {l : List Char} :
      Hex.numeral? [a, b, c, d] = some n → Lexeme l → Lexeme ('\\' :: 'u' :: a :: b :: c :: d :: l)

section Read

variable {c : Char} {l s : List Char}

/-- A plain character is read on the way to the closing quote. -/
theorem splitQuote_char (hquote : c ≠ '"') (hslash : c ≠ '\\') (hc : 0x20 ≤ c.toNat) :
    splitQuote (c :: s) = (splitQuote s).map fun p => (c :: p.1, p.2) := by
  rw [splitQuote]
  · rw [if_neg (Nat.not_lt.2 hc)]
  · simpa using hquote
  · rintro d rest rfl
    exact absurd rfl hslash

/-- A backslash takes the next character with it, even a quote. -/
theorem splitQuote_escape :
    splitQuote ('\\' :: c :: s) = (splitQuote s).map fun p => ('\\' :: c :: p.1, p.2) := by
  rw [splitQuote]

/-- A character that is no backslash is a piece of its own. -/
theorem pieces_char (hslash : c ≠ '\\') : pieces (c :: l) = (pieces l).map (.char c :: ·) := by
  rw [pieces]
  exact hslash

/-- An escaped letter is the piece of the character it is short for. -/
theorem pieces_escape {e : Char} (h : escaped? e = some c) :
    pieces ('\\' :: e :: l) = (pieces l).map (.char c :: ·) := by
  rw [pieces, h, Option.bind_some]
  rintro a b c d rest rfl
  cases h

/-- Four hexadecimal digits are the piece of the number they stand for. -/
theorem pieces_unit {a b c d : Char} {n : Nat} (h : Hex.numeral? [a, b, c, d] = some n) :
    pieces ('\\' :: 'u' :: a :: b :: c :: d :: l) = (pieces l).map (.unit n :: ·) := by
  rw [pieces, h, Option.bind_some]

/-- A hexadecimal digit can stand in a text as it is. -/
theorem splitQuote_hex {n : Nat} (h : Hex.value? c = some n) :
    splitQuote (c :: s) = (splitQuote s).map fun p => (c :: p.1, p.2) := by
  refine splitQuote_char ?_ ?_ (Hex.le_toNat_of_value? h)
  · rintro rfl
    cases h
  · rintro rfl
    cases h

namespace Lexeme

/-- **A lexeme ends at the quote after it.** -/
theorem splitQuote_append (h : Lexeme l) (rest : List Char) :
    splitQuote (l ++ '"' :: rest) = some (l, rest) := by
  induction h with
  | nil => rfl
  | char hquote hslash hc _ ih =>
    rw [List.cons_append, splitQuote_char hquote hslash hc, ih, Option.map_some]
  | escape _ _ ih => rw [List.cons_append, List.cons_append, splitQuote_escape, ih, Option.map_some]
  | unit hn _ ih =>
    obtain ⟨⟨i, hi⟩, ⟨j, hj⟩, ⟨k, hk⟩, m, hm⟩ := Hex.exists_values hn
    simp only [List.cons_append, splitQuote_escape, splitQuote_hex hi, splitQuote_hex hj,
      splitQuote_hex hk, splitQuote_hex hm, ih, Option.map_some]

/-- Every lexeme falls into pieces. -/
theorem isSome_pieces (h : Lexeme l) : (pieces l).isSome := by
  induction h with
  | nil => rfl
  | char _ hslash _ _ ih => rwa [pieces_char hslash, Option.isSome_map]
  | escape hc _ ih => rwa [pieces_escape hc, Option.isSome_map]
  | unit hn _ ih => rwa [pieces_unit hn, Option.isSome_map]

/-- A lexeme is read up to the quote that closes it. -/
theorem readText_append (h : Lexeme l) (rest : List Char) :
    readText (l ++ '"' :: rest) = some (l, rest) := by
  rw [readText, h.splitQuote_append, Option.bind_some]
  exact if_pos h.isSome_pieces

end Lexeme
end Read

section Escape

variable {c : Char} {l : List Char}

/-- A character is written by an escape with a letter, by one with its number, or as it is. -/
theorem escapeChar_cases (c : Char) :
    (∃ e, escaped? e = some c ∧ escapeChar c = ['\\', e]) ∨
      (c.toNat < 0x20 ∧ escapeChar c = escapeControl c) ∨
      (c ≠ '"' ∧ c ≠ '\\' ∧ 0x20 ≤ c.toNat ∧ escapeChar c = [c]) := by
  by_cases hletter : c ∈ ['"', '\\', '\x08', '\t', '\n', '\x0c', '\r']
  · left
    simp only [List.mem_cons, List.not_mem_nil, or_false] at hletter
    rcases hletter with rfl | rfl | rfl | rfl | rfl | rfl | rfl
    · exact ⟨'"', rfl, rfl⟩
    · exact ⟨'\\', rfl, rfl⟩
    · exact ⟨'b', rfl, rfl⟩
    · exact ⟨'t', rfl, rfl⟩
    · exact ⟨'n', rfl, rfl⟩
    · exact ⟨'f', rfl, rfl⟩
    · exact ⟨'r', rfl, rfl⟩
  · right
    simp only [List.mem_cons, List.not_mem_nil, or_false, not_or] at hletter
    obtain ⟨h₁, h₂, h₃, h₄, h₅, h₆, h₇⟩ := hletter
    by_cases hc : c.toNat < 0x20
    · exact .inl ⟨hc, by simp only [escapeChar, if_neg, *, not_false_eq_true, if_true]⟩
    · exact .inr ⟨h₁, h₂, Nat.le_of_not_lt hc,
        by simp only [escapeChar, if_neg, *, not_false_eq_true]⟩

/-- The two digits of a control character's number are read back. -/
theorem numeral?_control (hc : c.toNat < 0x20) :
    Hex.numeral? ['0', '0', Hex.digit (c.toNat / 16), Hex.digit (c.toNat % 16)] =
      some c.toNat := by
  have hhigh : Hex.value? (Hex.digit (c.toNat / 16)) = some (c.toNat / 16) :=
    Hex.value?_digit (by omega)
  have hlow : Hex.value? (Hex.digit (c.toNat % 16)) = some (c.toNat % 16) :=
    Hex.value?_digit (Nat.mod_lt _ (by decide))
  have hzero : Hex.value? '0' = some 0 := rfl
  simp only [Hex.numeral?, List.foldlM_cons, List.foldlM_nil, hzero, hhigh, hlow, Option.map_some,
    Option.bind_eq_bind, Option.bind_some, Option.pure_def, Option.some.injEq]
  omega

/-- An escaped character may stand before a lexeme. -/
theorem lexeme_escapeChar_append (c : Char) (h : Lexeme l) : Lexeme (escapeChar c ++ l) := by
  rcases escapeChar_cases c with ⟨e, he, heq⟩ | ⟨hc, heq⟩ | ⟨hquote, hslash, hc, heq⟩ <;> rw [heq]
  · exact .escape he h
  · exact .unit (numeral?_control hc) h
  · exact .char hquote hslash hc h

/-- What is written for a text may stand between its quotes. -/
theorem lexeme_escape (l : List Char) : Lexeme (escape l) := by
  induction l with
  | nil => exact .nil
  | cons c l ih => exact lexeme_escapeChar_append c ih

/-- What is written for a character is a piece that gives the character. -/
theorem exists_piece (c : Char) :
    ∃ p, (∀ l, pieces (escapeChar c ++ l) = (pieces l).map (p :: ·)) ∧
      ∀ ps, assemble (p :: ps) = (assemble ps).map (c :: ·) := by
  rcases escapeChar_cases c with ⟨e, he, heq⟩ | ⟨hc, heq⟩ | ⟨-, hslash, -, heq⟩ <;> rw [heq]
  · exact ⟨.char c, fun l => pieces_escape he, fun ps => rfl⟩
  · refine ⟨.unit c.toNat, fun l => pieces_unit (numeral?_control hc), fun ps => ?_⟩
    have hhigh : isHigh c.toNat = false := by
      simp only [isHigh, Bool.and_eq_false_iff, decide_eq_false_iff_not]
      omega
    have hlow : isLow c.toNat = false := by
      simp only [isLow, Bool.and_eq_false_iff, decide_eq_false_iff_not]
      omega
    rw [assemble.eq_def]
    simp only [hhigh, hlow, Bool.false_eq_true, if_false, Char.ofNat_toNat]
  · exact ⟨.char c, fun l => pieces_char hslash, fun ps => rfl⟩

/-- **What is written for a text stands for it.** -/
@[simp] theorem unescape_escape (s : String) : unescape (escape s.toList) = some s := by
  have hassemble : ∀ l, (pieces (escape l)).bind assemble = some l := by
    intro l
    induction l with
    | nil => rfl
    | cons c l ih =>
      obtain ⟨p, hpieces, hp⟩ := exists_piece c
      obtain ⟨ps, hps, hl⟩ := Option.bind_eq_some_iff.1 ih
      rw [escape, List.flatMap_cons, hpieces]
      change ((pieces (escape l)).map _).bind assemble = _
      rw [hps, Option.map_some, Option.bind_some, hp, hl, Option.map_some]
  rw [unescape, hassemble, Option.map_some, String.ofList_toList]

/-- A text is read back from its JSON value. -/
@[simp] theorem string?_ofString (s : String) : string? (ofString s) = some s := unescape_escape s

end Escape
end Json
end StateMachine
