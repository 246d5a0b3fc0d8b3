/-
# What a text is written for

Many lexemes may stand for one text: any character can be written by its number, one outside the
first 65536 by the two numbers of a surrogate pair, and some by a letter. `Spells` says which ones
do. A surrogate that stands alone spells nothing. Reading a lexeme gives the text that it spells,
and nothing if there is none (`Lexeme.unescape_eq_some_iff`).
-/

import StateMachine.Proofs.Json.Text

namespace StateMachine
namespace Json

/-- The lexeme is written for the text. -/
inductive Spells : List Char → List Char → Prop
  | nil : Spells [] []
  | char {c : Char} {l s : List Char} :
      c ≠ '"' → c ≠ '\\' → 0x20 ≤ c.toNat → Spells l s → Spells (c :: l) (c :: s)
  | escape {e c : Char} {l s : List Char} :
      escaped? e = some c → Spells l s → Spells ('\\' :: e :: l) (c :: s)
  | unit {a b c d : Char} {n : Nat} {l s : List Char} :
      Hex.numeral? [a, b, c, d] = some n → isHigh n = false → isLow n = false → Spells l s →
        Spells ('\\' :: 'u' :: a :: b :: c :: d :: l) (Char.ofNat n :: s)
  | pair {a b c d a' b' c' d' : Char} {high low : Nat} {l s : List Char} :
      Hex.numeral? [a, b, c, d] = some high → isHigh high = true →
        Hex.numeral? [a', b', c', d'] = some low → isLow low = true → Spells l s →
          Spells ('\\' :: 'u' :: a :: b :: c :: d :: '\\' :: 'u' :: a' :: b' :: c' :: d' :: l)
            (pairChar high low :: s)

section Assemble

variable {n m : Nat} {ps : List Piece}

/-- A character stands for itself. -/
theorem assemble_char (c : Char) : assemble (.char c :: ps) = (assemble ps).map (c :: ·) := rfl

/-- A number that is no surrogate stands for the character of this number. -/
theorem assemble_unit (hhigh : isHigh n = false) (hlow : isLow n = false) :
    assemble (.unit n :: ps) = (assemble ps).map (Char.ofNat n :: ·) := by
  rw [assemble.eq_def]
  simp only [hhigh, hlow, Bool.false_eq_true, if_false]

/-- A high surrogate and a low one stand for one character together. -/
theorem assemble_pair (hhigh : isHigh n = true) (hlow : isLow m = true) :
    assemble (.unit n :: .unit m :: ps) = (assemble ps).map (pairChar n m :: ·) := by
  rw [assemble.eq_def]
  simp only [hhigh, hlow, if_true]

end Assemble

section Pieces

variable {l s : List Char} {ps : List Piece}

/-- A lexeme that spells something may stand between quotes. -/
theorem Spells.lexeme (h : Spells l s) : Lexeme l := by
  induction h with
  | nil => exact .nil
  | char hquote hslash hc _ ih => exact .char hquote hslash hc ih
  | escape he _ ih => exact .escape he ih
  | unit hn _ _ _ ih => exact .unit hn ih
  | pair hhigh _ hlow _ _ ih => exact .unit hhigh (.unit hlow ih)

/-- What a lexeme spells is assembled from its pieces. -/
theorem Spells.assemble_pieces (h : Spells l s) : (pieces l).bind assemble = some s := by
  induction h with
  | nil => rfl
  | char _ hslash _ _ ih =>
    obtain ⟨ps, hps, hs⟩ := Option.bind_eq_some_iff.1 ih
    rw [pieces_char hslash, hps, Option.map_some, Option.bind_some, assemble_char, hs,
      Option.map_some]
  | escape he _ ih =>
    obtain ⟨ps, hps, hs⟩ := Option.bind_eq_some_iff.1 ih
    rw [pieces_escape he, hps, Option.map_some, Option.bind_some, assemble_char, hs,
      Option.map_some]
  | unit hn hhigh hlow _ ih =>
    obtain ⟨ps, hps, hs⟩ := Option.bind_eq_some_iff.1 ih
    rw [pieces_unit hn, hps, Option.map_some, Option.bind_some, assemble_unit hhigh hlow, hs,
      Option.map_some]
  | pair hn hhigh hm hlow _ ih =>
    obtain ⟨ps, hps, hs⟩ := Option.bind_eq_some_iff.1 ih
    rw [pieces_unit hn, pieces_unit hm, hps, Option.map_some, Option.map_some, Option.bind_some,
      assemble_pair hhigh hlow, hs, Option.map_some]

/-- A lexeme is empty, begins with a character, as it is or by a letter, or with a number: its first
piece tells which. -/
theorem Lexeme.pieces_cases (h : Lexeme l) (hps : pieces l = some ps) :
    (l = [] ∧ ps = []) ∨
      (∃ c l' ps', ps = .char c :: ps' ∧ Lexeme l' ∧ pieces l' = some ps' ∧
        ∀ s, Spells l' s → Spells l (c :: s)) ∨
      ∃ a b c d n l' ps', l = '\\' :: 'u' :: a :: b :: c :: d :: l' ∧ ps = .unit n :: ps' ∧
        Hex.numeral? [a, b, c, d] = some n ∧ Lexeme l' ∧ pieces l' = some ps' := by
  cases h with
  | nil => exact .inl ⟨rfl, (Option.some.inj hps).symm⟩
  | char hquote hslash hc hl =>
    rw [pieces_char hslash] at hps
    obtain ⟨ps', hps', rfl⟩ := Option.map_eq_some_iff.1 hps
    exact .inr (.inl ⟨_, _, ps', rfl, hl, hps', fun s => .char hquote hslash hc⟩)
  | escape he hl =>
    rw [pieces_escape he] at hps
    obtain ⟨ps', hps', rfl⟩ := Option.map_eq_some_iff.1 hps
    exact .inr (.inl ⟨_, _, ps', rfl, hl, hps', fun s => .escape he⟩)
  | unit hn hl =>
    rw [pieces_unit hn] at hps
    obtain ⟨ps', hps', rfl⟩ := Option.map_eq_some_iff.1 hps
    exact .inr (.inr ⟨_, _, _, _, _, _, ps', rfl, rfl, hn, hl, hps'⟩)

/-- A lexeme that begins with a number is seen from its first piece. -/
theorem Lexeme.of_pieces_unit {n : Nat} (h : Lexeme l) (hps : pieces l = some (.unit n :: ps)) :
    ∃ a b c d l', l = '\\' :: 'u' :: a :: b :: c :: d :: l' ∧
      Hex.numeral? [a, b, c, d] = some n ∧ Lexeme l' ∧ pieces l' = some ps := by
  rcases h.pieces_cases hps with
    ⟨-, hnil⟩ | ⟨_, _, _, hchar, -⟩ | ⟨a, b, c, d, m, l', ps', rfl, hunit, hm, hl', hps'⟩
  · cases hnil
  · cases hchar
  · cases hunit
    exact ⟨a, b, c, d, l', rfl, hm, hl', hps'⟩

/-- **A lexeme spells what its pieces come to.** -/
theorem Lexeme.spells_of_assemble (h : Lexeme l) (hps : pieces l = some ps)
    (hs : assemble ps = some s) : Spells l s := by
  induction ps using assemble.induct generalizing l s with
  | case1 =>
    cases hs
    rcases h.pieces_cases hps with ⟨rfl, -⟩ | ⟨_, _, _, hchar, -⟩ |
      ⟨_, _, _, _, _, _, _, _, hunit, -⟩
    · exact .nil
    · cases hchar
    · cases hunit
  | case2 c ps ih =>
    rw [assemble_char] at hs
    obtain ⟨s', hs', rfl⟩ := Option.map_eq_some_iff.1 hs
    rcases h.pieces_cases hps with ⟨-, hnil⟩ | ⟨_, l', _, hchar, hl', hps', hspells⟩ |
      ⟨_, _, _, _, _, _, _, -, hunit, -⟩
    · cases hnil
    · cases hchar
      exact hspells s' (ih hl' hps' hs')
    · cases hunit
  | case3 n hhigh m ps hlow ih =>
    rw [assemble_pair hhigh hlow] at hs
    obtain ⟨s', hs', rfl⟩ := Option.map_eq_some_iff.1 hs
    obtain ⟨a, b, c, d, l', rfl, hn, hl', hps'⟩ := h.of_pieces_unit hps
    obtain ⟨a', b', c', d', l'', rfl, hm, hl'', hps''⟩ := hl'.of_pieces_unit hps'
    exact .pair hn hhigh hm hlow (ih hl'' hps'' hs')
  -- A surrogate that stands alone comes to nothing.
  | case4 n hhigh m ps hlow =>
    rw [assemble.eq_def] at hs
    simp [hhigh, hlow] at hs
  | case5 n ps hhigh hlone =>
    rw [assemble.eq_def] at hs
    simp [hhigh] at hs
  | case6 n ps hhigh hlow =>
    rw [assemble.eq_def] at hs
    simp [hhigh, hlow] at hs
  | case7 n ps hhigh hlow ih =>
    have hhigh : isHigh n = false := Bool.eq_false_iff.2 hhigh
    have hlow : isLow n = false := Bool.eq_false_iff.2 hlow
    rw [assemble_unit hhigh hlow] at hs
    obtain ⟨s', hs', rfl⟩ := Option.map_eq_some_iff.1 hs
    obtain ⟨a, b, c, d, l', rfl, hn, hl', hps'⟩ := h.of_pieces_unit hps
    exact .unit hn hhigh hlow (ih hl' hps' hs')

end Pieces

/-- **A lexeme is read as the text that it spells,** and not read if it spells none. -/
theorem Lexeme.unescape_eq_some_iff {l : List Char} (h : Lexeme l) {s : String} :
    unescape l = some s ↔ Spells l s.toList := by
  constructor
  · intro hs
    obtain ⟨t, ht, rfl⟩ := Option.map_eq_some_iff.1 hs
    obtain ⟨ps, hps, hassemble⟩ := Option.bind_eq_some_iff.1 ht
    rw [String.toList_ofList]
    exact h.spells_of_assemble hps hassemble
  · intro hs
    rw [unescape, hs.assemble_pieces, Option.map_some, String.ofList_toList]

/-- What is written for a text spells it. -/
theorem spells_escape (s : String) : Spells (escape s.toList) s.toList :=
  (lexeme_escape _).unescape_eq_some_iff.1 (unescape_escape s)

end Json
end StateMachine
