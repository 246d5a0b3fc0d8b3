/-
# Documents as texts

The texts of a value are given by a grammar, with blanks wherever JSON allows them: `Value s j rest`
says that `s` begins with a text of the value `j`, and goes on with `rest`. Reading gives back the
value and what follows (`Value.readValue_eq`), so that a document has one value at most.
-/

import StateMachine.Json.Reader
import StateMachine.Proofs.Json.Number
import StateMachine.Proofs.Json.Text
import Mathlib.Data.List.TakeWhile

namespace StateMachine
namespace Json

/-- The text is blanks, and then `t`. -/
def Blanks (s t : List Char) : Prop := ∃ b, (∀ c ∈ b, isBlank c) ∧ s = b ++ t

mutual

/-- The text begins with a value, and goes on with `rest`. -/
inductive Value : List Char → Json → List Char → Prop
  | null {rest : List Char} : Value ('n' :: 'u' :: 'l' :: 'l' :: rest) .null rest
  | true {rest : List Char} : Value ('t' :: 'r' :: 'u' :: 'e' :: rest) (.bool true) rest
  | false {rest : List Char} : Value ('f' :: 'a' :: 'l' :: 's' :: 'e' :: rest) (.bool false) rest
  | number {l rest : List Char} :
      Numeral l → EndsNumber rest → Value (l ++ rest) (.number l) rest
  | text {l rest : List Char} : Lexeme l → Value ('"' :: (l ++ '"' :: rest)) (.text l) rest
  | emptyList {s rest : List Char} : Blanks s (']' :: rest) → Value ('[' :: s) (.list []) rest
  | list {s t rest : List Char} {es : List Json} :
      Blanks s t → Elements t es rest → Value ('[' :: s) (.list es) rest
  | emptyObject {s rest : List Char} :
      Blanks s ('}' :: rest) → Value ('{' :: s) (.object []) rest
  | object {s t rest : List Char} {ms : List (List Char × Json)} :
      Blanks s t → Members t ms rest → Value ('{' :: s) (.object ms) rest

/-- The text begins with the elements of a list and its closing bracket. -/
inductive Elements : List Char → List Json → List Char → Prop
  | last {s t rest : List Char} {e : Json} :
      Value s e t → Blanks t (']' :: rest) → Elements s [e] rest
  | cons {s t u v rest : List Char} {e : Json} {es : List Json} :
      Value s e t → Blanks t (',' :: u) → Blanks u v → Elements v es rest →
        Elements s (e :: es) rest

/-- The text begins with the members of an object and its closing brace. -/
inductive Members : List Char → List (List Char × Json) → List Char → Prop
  | last {k s t u v rest : List Char} {j : Json} :
      Lexeme k → Blanks s (':' :: t) → Blanks t u → Value u j v → Blanks v ('}' :: rest) →
        Members ('"' :: (k ++ '"' :: s)) [(k, j)] rest
  | cons {k s t u v w x rest : List Char} {j : Json} {ms : List (List Char × Json)} :
      Lexeme k → Blanks s (':' :: t) → Blanks t u → Value u j v → Blanks v (',' :: w) →
        Blanks w x → Members x ms rest → Members ('"' :: (k ++ '"' :: s)) ((k, j) :: ms) rest

end

section Blanks

variable {s t : List Char} {c : Char}

/-- What comes after blanks is not longer than the text. -/
theorem Blanks.length_le (h : Blanks s t) : t.length ≤ s.length := by
  obtain ⟨b, -, rfl⟩ := h
  simp

/-- Skipping blanks leads to the first character that is none. -/
theorem Blanks.skipBlanks_eq (h : Blanks s (c :: t)) (hc : ¬ isBlank c) :
    skipBlanks s = c :: t := by
  obtain ⟨b, hb, rfl⟩ := h
  rw [skipBlanks, List.dropWhile_append_of_pos hb, List.dropWhile_cons_of_neg hc]

end Blanks

section Length

/-! A text of a value is not empty, so what follows it is shorter. -/

mutual

/-- What follows a value is shorter than the text that begins with it. -/
theorem Value.length_lt {s : List Char} {j : Json} {rest : List Char} :
    Value s j rest → rest.length < s.length
  | .null => by simp only [List.length_cons]; omega
  | .true => by simp only [List.length_cons]; omega
  | .false => by simp only [List.length_cons]; omega
  | .number hl _ => by
    obtain ⟨c, l, rfl, -⟩ := hl.exists_cons
    simp only [List.length_append, List.length_cons]
    omega
  | .text _ => by
    simp only [List.length_append, List.length_cons]
    omega
  | .emptyList hb => Nat.lt_succ_of_lt hb.length_le
  | .list hb h => Nat.lt_succ_of_lt (Nat.lt_of_lt_of_le h.length_lt hb.length_le)
  | .emptyObject hb => Nat.lt_succ_of_lt hb.length_le
  | .object hb h => Nat.lt_succ_of_lt (Nat.lt_of_lt_of_le h.length_lt hb.length_le)

/-- What follows the elements of a list is shorter than the text that begins with them. -/
theorem Elements.length_lt {s : List Char} {es : List Json} {rest : List Char} :
    Elements s es rest → rest.length < s.length
  | .last h hb => Nat.lt_trans hb.length_le h.length_lt
  | .cons h hcomma hb hs => by
    have hvalue := h.length_lt
    have hcomma := hcomma.length_le
    have hblanks := hb.length_le
    have helements := hs.length_lt
    rw [List.length_cons] at hcomma
    omega

/-- What follows the members of an object is shorter than the text that begins with them. -/
theorem Members.length_lt {s : List Char} {ms : List (List Char × Json)} {rest : List Char} :
    Members s ms rest → rest.length < s.length
  | .last _ hcolon hb h hbrace => by
    have hcolon := hcolon.length_le
    have hblanks := hb.length_le
    have hvalue := h.length_lt
    have hbrace := hbrace.length_le
    simp only [List.length_cons, List.length_append] at hcolon hbrace ⊢
    omega
  | .cons _ hcolon hb h hcomma hb' hs => by
    have hcolon := hcolon.length_le
    have hblanks := hb.length_le
    have hvalue := h.length_lt
    have hcomma := hcomma.length_le
    have hblanks' := hb'.length_le
    have hmembers := hs.length_lt
    simp only [List.length_cons, List.length_append] at hcolon hcomma ⊢
    omega

end

end Length

section Read

variable {n : Nat} {s t rest : List Char} {c : Char} {j : Json} {es : List Json}
  {ms : List (List Char × Json)}

/-- A value begins with a character that is no blank and closes no list. -/
theorem Value.exists_cons (h : Value s j rest) : ∃ c s', s = c :: s' ∧ ¬ isBlank c ∧ c ≠ ']' := by
  cases h with
  | number hl =>
    obtain ⟨c, l, rfl, hc⟩ := hl.exists_cons
    refine ⟨c, _, rfl, ?_⟩
    rcases hc with rfl | hc
    · decide
    · exact ⟨by simp [isBlank, ne_of_isDigit hc], ne_of_isDigit hc rfl⟩
  | _ => exact ⟨_, _, rfl, by decide⟩

/-- The elements of a list begin with a character that is no blank and closes no list. -/
theorem Elements.exists_cons (h : Elements s es rest) :
    ∃ c s', s = c :: s' ∧ ¬ isBlank c ∧ c ≠ ']' := by
  cases h with
  | last h => exact h.exists_cons
  | cons h => exact h.exists_cons

/-- After a minus sign or a digit, a number is read. -/
theorem readValue_number (hc : c = '-' ∨ c.isDigit) :
    readValue (n + 1) (c :: s) = (readNumber (c :: s)).map fun p => (.number p.1, p.2) := by
  have hne (d : Char) (hd : (d != '-' && !d.isDigit) = true) : c ≠ d := by
    rintro rfl
    rcases hc with rfl | hc
    · cases hd
    · simp [hc] at hd
  rw [readValue]
  all_goals
    rintro rest ⟨⟩
    exact hne _ (by decide) rfl

/-- A list that is closed after blanks is read as the empty one. -/
theorem readValue_emptyList (h : Blanks s (']' :: rest)) :
    readValue (n + 1) ('[' :: s) = some (.list [], rest) := by
  simp only [readValue, h.skipBlanks_eq (by decide : ¬ isBlank ']')]

/-- A list that is not closed at once is read as its elements. -/
theorem readValue_list (h : Blanks s (c :: t)) (hblank : ¬ isBlank c) (hc : c ≠ ']') :
    readValue (n + 1) ('[' :: s) = (readElements n (c :: t)).map fun p => (.list p.1, p.2) := by
  rw [readValue, h.skipBlanks_eq hblank]
  split
  · next heq => exact absurd (List.cons.inj heq).1 hc
  · rfl

/-- An object that is closed after blanks is read as the empty one. -/
theorem readValue_emptyObject (h : Blanks s ('}' :: rest)) :
    readValue (n + 1) ('{' :: s) = some (.object [], rest) := by
  simp only [readValue, h.skipBlanks_eq (by decide : ¬ isBlank '}')]

/-- An object in which a text begins is read as its members. -/
theorem readValue_object (h : Blanks s ('"' :: t)) :
    readValue (n + 1) ('{' :: s) = (readMembers n ('"' :: t)).map fun p => (.object p.1, p.2) := by
  rw [readValue, h.skipBlanks_eq (by decide)]
  rfl

/-- An element before the closing bracket is the last one. -/
theorem readElements_last (h : readValue n s = some (j, t)) (hb : Blanks t (']' :: rest)) :
    readElements (n + 1) s = some ([j], rest) := by
  simp only [readElements, h, Option.bind_some, hb.skipBlanks_eq (by decide : ¬ isBlank ']')]

/-- After an element and a comma, the other elements are read. -/
theorem readElements_cons {u : List Char} (h : readValue n s = some (j, t))
    (hb : Blanks t (',' :: u)) :
    readElements (n + 1) s =
      (readElements n (skipBlanks u)).map fun p => (j :: p.1, p.2) := by
  simp only [readElements, h, Option.bind_some, hb.skipBlanks_eq (by decide : ¬ isBlank ',')]

/-- A member before the closing brace is the last one. -/
theorem readMembers_last {k u v : List Char} (hk : Lexeme k) (hcolon : Blanks s (':' :: t))
    (hu : skipBlanks t = u) (h : readValue n u = some (j, v)) (hb : Blanks v ('}' :: rest)) :
    readMembers (n + 1) ('"' :: (k ++ '"' :: s)) = some ([(k, j)], rest) := by
  rw [readMembers, hk.readText_append, Option.bind_some]
  simp only [hcolon.skipBlanks_eq (by decide : ¬ isBlank ':'), hu, h, Option.bind_some,
    hb.skipBlanks_eq (by decide : ¬ isBlank '}')]

/-- After a member and a comma, the other members are read. -/
theorem readMembers_cons {k u v w : List Char} (hk : Lexeme k) (hcolon : Blanks s (':' :: t))
    (hu : skipBlanks t = u) (h : readValue n u = some (j, v)) (hb : Blanks v (',' :: w)) :
    readMembers (n + 1) ('"' :: (k ++ '"' :: s)) =
      (readMembers n (skipBlanks w)).map fun p => ((k, j) :: p.1, p.2) := by
  rw [readMembers, hk.readText_append, Option.bind_some]
  simp only [hcolon.skipBlanks_eq (by decide : ¬ isBlank ':'), hu, h, Option.bind_some,
    hb.skipBlanks_eq (by decide : ¬ isBlank ',')]

/-- Skipping blanks leads to the value that follows them. -/
theorem Value.skipBlanks_eq (h : Value s j rest) (hb : Blanks t s) : skipBlanks t = s := by
  obtain ⟨c, s, rfl, hc, -⟩ := h.exists_cons
  exact hb.skipBlanks_eq hc

/-- Skipping blanks leads to the elements that follow them. -/
theorem Elements.skipBlanks_eq (h : Elements s es rest) (hb : Blanks t s) : skipBlanks t = s := by
  obtain ⟨c, s, rfl, hc, -⟩ := h.exists_cons
  exact hb.skipBlanks_eq hc

/-- The members of an object begin with a quote. -/
theorem Members.exists_cons (h : Members s ms rest) : ∃ s', s = '"' :: s' := by
  cases h <;> exact ⟨_, rfl⟩

/-- Skipping blanks leads to the members that follow them. -/
theorem Members.skipBlanks_eq (h : Members s ms rest) (hb : Blanks t s) : skipBlanks t = s := by
  obtain ⟨s, rfl⟩ := h.exists_cons
  exact hb.skipBlanks_eq (by decide)

mutual

/-- **A value is read back,** with what follows it. The bound on the work counts twice, as a list
and its first element begin at the same place. -/
theorem Value.readValue_eq {s : List Char} {j : Json} {rest : List Char} {n : Nat} :
    Value s j rest → 2 * s.length ≤ n + 1 → readValue (n + 1) s = some (j, rest)
  | .null, _ => rfl
  | .true, _ => rfl
  | .false, _ => rfl
  | .number hl hrest, _ => by
    obtain ⟨c, l, rfl, hc⟩ := hl.exists_cons
    rw [List.cons_append, readValue_number hc, ← List.cons_append, hl.readNumber_append hrest,
      Option.map_some]
  | .text hl, _ => by rw [readValue, hl.readText_append, Option.map_some]
  | .emptyList hb, _ => readValue_emptyList hb
  | .list hb h, hn => by
    obtain ⟨c, t, rfl, hblank, hc⟩ := h.exists_cons
    have hlength := hb.length_le
    rw [readValue_list hb hblank hc,
      h.readElements_eq (by rw [List.length_cons] at hn; omega), Option.map_some]
  | .emptyObject hb, _ => readValue_emptyObject hb
  | .object hb h, hn => by
    obtain ⟨t, rfl⟩ := h.exists_cons
    have hlength := hb.length_le
    rw [readValue_object hb, h.readMembers_eq (by rw [List.length_cons] at hn; omega),
      Option.map_some]

/-- The elements of a list are read back. -/
theorem Elements.readElements_eq {s : List Char} {es : List Json} {rest : List Char} {n : Nat} :
    Elements s es rest → 2 * s.length + 1 ≤ n → readElements n s = some (es, rest)
  | .last h hb, hn => by
    have hlength := h.length_lt
    obtain ⟨n, rfl⟩ : ∃ k, n = k + 2 := ⟨n - 2, by omega⟩
    exact readElements_last (h.readValue_eq (by omega)) hb
  | .cons h hcomma hb hs, hn => by
    have hlength := h.length_lt
    have hafter := hcomma.length_le
    have hblanks := hb.length_le
    rw [List.length_cons] at hafter
    obtain ⟨n, rfl⟩ : ∃ k, n = k + 2 := ⟨n - 2, by omega⟩
    rw [readElements_cons (h.readValue_eq (by omega)) hcomma, hs.skipBlanks_eq hb,
      hs.readElements_eq (by omega), Option.map_some]

/-- The members of an object are read back. -/
theorem Members.readMembers_eq {s : List Char} {ms : List (List Char × Json)} {rest : List Char}
    {n : Nat} : Members s ms rest → 2 * s.length + 1 ≤ n → readMembers n s = some (ms, rest)
  | .last hk hcolon hb h hbrace, hn => by
    have hlength := hcolon.length_le
    have hblanks := hb.length_le
    simp only [List.length_cons, List.length_append] at hlength hn
    obtain ⟨n, rfl⟩ : ∃ k, n = k + 2 := ⟨n - 2, by omega⟩
    exact readMembers_last hk hcolon (h.skipBlanks_eq hb) (h.readValue_eq (by omega)) hbrace
  | .cons hk hcolon hb h hcomma hb' hs, hn => by
    have hlength := hcolon.length_le
    have hblanks := hb.length_le
    have hvalue := h.length_lt
    have hafter := hcomma.length_le
    have hblanks' := hb'.length_le
    simp only [List.length_cons, List.length_append] at hlength hafter hn
    obtain ⟨n, rfl⟩ : ∃ k, n = k + 2 := ⟨n - 2, by omega⟩
    rw [readMembers_cons hk hcolon (h.skipBlanks_eq hb) (h.readValue_eq (by omega)) hcomma,
      hs.skipBlanks_eq hb', hs.readMembers_eq (by omega), Option.map_some]

end

/-- Nothing is left after blanks just if the text is blanks only. -/
theorem skipBlanks_eq_nil_iff : skipBlanks s = [] ↔ Blanks s [] := by
  rw [skipBlanks, List.dropWhile_eq_nil_iff]
  constructor
  · exact fun h => ⟨s, h, (List.append_nil s).symm⟩
  · rintro ⟨b, hb, rfl⟩
    rwa [List.append_nil]

/-- **A document that begins with a value has this value, or none:** none if anything but blanks
follows. -/
theorem read_eq_some_iff {document : String} {j' : Json} (hs : Blanks document.toList s)
    (h : Value s j t) : Json.read document = some j' ↔ Blanks t [] ∧ j = j' := by
  have hlength := hs.length_le
  have hread : readValue (2 * document.toList.length + 1) s = some (j, t) :=
    h.readValue_eq (by omega)
  simp only [Json.read, h.skipBlanks_eq hs, hread, List.isEmpty_iff, skipBlanks_eq_nil_iff,
    Option.ite_none_right_eq_some, Option.some.injEq]

/-- A document has the value that it is a text of, with blanks around it. -/
theorem read_of_value {document : String} (hs : Blanks document.toList s) (h : Value s j t)
    (ht : Blanks t []) : Json.read document = some j :=
  (read_eq_some_iff hs h).2 ⟨ht, rfl⟩

end Read
end Json
end StateMachine
