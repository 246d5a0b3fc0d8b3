/-
# Documents that are written

What is written for a value is a text of it in the grammar, in either layout and at any depth: new
lines and indentation are blanks between tokens. So reading it gives back the value
(`WellFormed.read_render`). Only a value whose numbers, texts and keys are well-formed has a text
(`Value.wellFormed`).
-/

import StateMachine.Json.Writer
import StateMachine.Proofs.Json.Grammar

namespace StateMachine
namespace Json

/-- The numbers, texts and keys in the value are such as may stand in a document. -/
inductive WellFormed : Json → Prop
  | null : WellFormed .null
  | bool {b : Bool} : WellFormed (.bool b)
  | number {l : List Char} : Numeral l → WellFormed (.number l)
  | text {l : List Char} : Lexeme l → WellFormed (.text l)
  | list {es : List Json} : (∀ e ∈ es, WellFormed e) → WellFormed (.list es)
  | object {ms : List (List Char × Json)} :
      (∀ m ∈ ms, Lexeme m.1) → (∀ m ∈ ms, WellFormed m.2) → WellFormed (.object ms)

section Text

/-! Only a well-formed value has a text. -/

mutual

/-- Only well-formed values have texts. -/
theorem Value.wellFormed {s : List Char} {j : Json} {rest : List Char} :
    Value s j rest → WellFormed j
  | .null => .null
  | .true => .bool
  | .false => .bool
  | .number hl _ => .number hl
  | .text hl => .text hl
  | .emptyList _ => .list (List.forall_mem_nil _)
  | .list _ h => .list h.wellFormed
  | .emptyObject _ => .object (List.forall_mem_nil _) (List.forall_mem_nil _)
  | .object _ h => .object (fun m hm => (h.wellFormed m hm).1) fun m hm => (h.wellFormed m hm).2

/-- Only well-formed values are elements of a list that has a text. -/
theorem Elements.wellFormed {s : List Char} {es : List Json} {rest : List Char} :
    Elements s es rest → ∀ e ∈ es, WellFormed e
  | .last h _ => List.forall_mem_singleton.2 h.wellFormed
  | .cons h _ _ hs => List.forall_mem_cons.2 ⟨h.wellFormed, hs.wellFormed⟩

/-- Only lexemes and well-formed values are members of an object that has a text. -/
theorem Members.wellFormed {s : List Char} {ms : List (List Char × Json)} {rest : List Char} :
    Members s ms rest → ∀ m ∈ ms, Lexeme m.1 ∧ WellFormed m.2
  | .last hk _ _ h _ => List.forall_mem_singleton.2 ⟨hk, h.wellFormed⟩
  | .cons hk _ _ h _ _ hs => List.forall_mem_cons.2 ⟨⟨hk, h.wellFormed⟩, hs.wellFormed⟩

end

end Text

section Blanks

variable {s t : List Char} {c : Char} {layout : Layout} {depth : Nat}

/-- There may be no blanks at all. -/
theorem Blanks.refl : Blanks s s := ⟨[], List.forall_mem_nil _, rfl⟩

/-- A layout puts nothing but blanks between the parts of a text. -/
theorem blanks_newline : Blanks (layout.newline depth ++ s) s := by
  refine ⟨layout.newline depth, fun c hc => ?_, rfl⟩
  cases layout with
  | compact => cases hc
  | indented =>
    rcases List.mem_cons.1 hc with rfl | hc
    · rfl
    · rw [List.eq_of_mem_replicate hc]
      rfl

/-- A key is written with a colon after it. -/
theorem exists_quote_colon (layout : Layout) (k s : List Char) :
    ∃ u t, quote k ++ (layout.colon ++ s) = '"' :: (k ++ '"' :: u) ∧ Blanks u (':' :: t) ∧
      Blanks t s := by
  cases layout with
  | compact => exact ⟨':' :: s, s, by simp [quote, Layout.colon], .refl, .refl⟩
  | indented =>
    exact ⟨':' :: ' ' :: s, ' ' :: s, by simp [quote, Layout.colon], .refl, [' '],
      by simp [isBlank], rfl⟩

/-- A number ends where a blank comes, a comma or a closing bracket. -/
theorem Blanks.endsNumber (h : Blanks s (c :: t)) (hc : c = ',' ∨ c = ']' ∨ c = '}') :
    EndsNumber s := by
  obtain ⟨b, hb, rfl⟩ := h
  cases b with
  | nil =>
    rintro d ⟨⟩
    rcases hc with rfl | rfl | rfl <;> decide
  | cons d b =>
    rintro e ⟨⟩
    have hblank : isBlank d := hb d List.mem_cons_self
    simp only [isBlank, Bool.or_eq_true, beq_iff_eq] at hblank
    rcases hblank with ((rfl | rfl) | rfl) | rfl <;> decide

/-- The end of the text ends a number. -/
theorem endsNumber_nil : EndsNumber [] := fun _ h => by cases h

end Blanks

section Write

variable {layout : Layout} {depth : Nat} {tail rest : List Char}

/-- The elements of a list are written one after the other, with commas between them. -/
theorem elements_write {e : Json} {es : List Json}
    (h : ∀ e' ∈ e :: es, ∀ rest, EndsNumber rest → Value (write layout depth e' ++ rest) e' rest)
    (htail : Blanks tail (']' :: rest)) :
    Elements (write layout depth e ++ (writeElements layout depth es ++ tail)) (e :: es) rest := by
  induction es generalizing e with
  | nil =>
    rw [writeElements, List.nil_append]
    exact .last (h e List.mem_cons_self _ (htail.endsNumber (.inr (.inl rfl)))) htail
  | cons e' es ih =>
    have hcomma : writeElements layout depth (e' :: es) ++ tail =
        ',' :: (layout.newline depth ++
          (write layout depth e' ++ (writeElements layout depth es ++ tail))) := by
      simp [writeElements]
    rw [hcomma]
    exact .cons (h e List.mem_cons_self _ (Blanks.refl.endsNumber (.inl rfl))) .refl
      blanks_newline (ih fun e'' he => h e'' (List.mem_cons_of_mem e he))

/-- The members of an object are written one after the other, with commas between them. -/
theorem members_write {k : List Char} {j : Json} {ms : List (List Char × Json)}
    (hkeys : ∀ m ∈ (k, j) :: ms, Lexeme m.1)
    (h : ∀ m ∈ (k, j) :: ms, ∀ rest, EndsNumber rest →
      Value (write layout depth m.2 ++ rest) m.2 rest)
    (htail : Blanks tail ('}' :: rest)) :
    Members (quote k ++ (layout.colon ++ (write layout depth j ++
      (writeMembers layout depth ms ++ tail)))) ((k, j) :: ms) rest := by
  induction ms generalizing k j with
  | nil =>
    obtain ⟨s, t, hs, hcolon, hblanks⟩ :=
      exists_quote_colon layout k (write layout depth j ++ tail)
    rw [writeMembers, List.nil_append, hs]
    exact .last (hkeys _ List.mem_cons_self) hcolon hblanks
      (h _ List.mem_cons_self tail (htail.endsNumber (.inr (.inr rfl)))) htail
  | cons m ms ih =>
    obtain ⟨k', j'⟩ := m
    have hcomma : writeMembers layout depth ((k', j') :: ms) ++ tail =
        ',' :: (layout.newline depth ++ (quote k' ++ (layout.colon ++
          (write layout depth j' ++ (writeMembers layout depth ms ++ tail))))) := by
      simp [writeMembers]
    obtain ⟨s, t, hs, hcolon, hblanks⟩ := exists_quote_colon layout k
      (write layout depth j ++ (writeMembers layout depth ((k', j') :: ms) ++ tail))
    rw [hs]
    rw [hcomma] at hblanks
    exact .cons (hkeys _ List.mem_cons_self) hcolon hblanks
      (h _ List.mem_cons_self _ (Blanks.refl.endsNumber (.inl rfl))) .refl blanks_newline
      (ih (fun m hm => hkeys m (List.mem_cons_of_mem _ hm))
        fun m hm => h m (List.mem_cons_of_mem _ hm))

/-- **What is written for a value is a text of it,** in either layout and at any depth. -/
theorem WellFormed.value_write {j : Json} (h : WellFormed j) :
    ∀ depth rest, EndsNumber rest → Value (write layout depth j ++ rest) j rest := by
  induction h with
  | null => exact fun _ _ _ => .null
  | @bool b =>
    cases b
    · exact fun _ _ _ => .false
    · exact fun _ _ _ => .true
  | number hl => exact fun _ _ hrest => .number hl hrest
  | text hl =>
    intro depth rest _
    simpa [write, quote] using Value.text hl
  | @list es _ ih =>
    intro depth rest _
    cases es with
    | nil => exact .emptyList .refl
    | cons e es =>
      have helements := elements_write (fun e' he => ih e' he (depth + 1))
        (blanks_newline : Blanks (layout.newline depth ++ ']' :: rest) _)
      simpa [write] using Value.list blanks_newline helements
  | @object ms hkeys _ ih =>
    intro depth rest _
    cases ms with
    | nil => exact .emptyObject .refl
    | cons m ms =>
      have hmembers := members_write hkeys (fun m' hm => ih m' hm (depth + 1))
        (blanks_newline : Blanks (layout.newline depth ++ '}' :: rest) _)
      simpa [write] using Value.object blanks_newline hmembers

/-- **A value that is written is read back.** -/
theorem WellFormed.read_render {j : Json} (h : WellFormed j) (layout : Layout) :
    Json.read (j.render layout) = some j := by
  have hvalue : Value (write layout 0 j ++ []) j [] := h.value_write 0 [] endsNumber_nil
  rw [List.append_nil] at hvalue
  exact read_of_value (by rw [render, String.toList_ofList]; exact .refl) hvalue .refl

end Write
end Json
end StateMachine
