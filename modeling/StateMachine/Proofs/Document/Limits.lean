/-
# Limits read from any object

Limits are read from an object text whatever else the object holds. Its members may stand in any
order, with blanks between all tokens, and those of other names are passed over at any depth. Under
the name of a limit there may be nothing, `null` or the numeral of a number that a machine word
holds (`Limits.Given`); anything else, or two members of the name, makes the document refused, and
so does anything but blanks after the object.
-/

import StateMachine.Document.Run
import StateMachine.Proofs.Document.Basic
import StateMachine.Proofs.Json.Record

namespace StateMachine

open Json (Named Fields)

namespace Limits

/-- What stands under the name of a limit says that this is the limit. -/
inductive Given : List Json → Option Nat → Prop
  | absent : Given [] none
  | null : Given [.null] none
  | number {n : Nat} : n < Json.wordBound → Given [.ofNat n] (some n)

/-- A limit is given at most once. -/
theorem Given.length_le {js : List Json} {o : Option Nat} (h : Given js o) : js.length ≤ 1 := by
  cases h with
  | absent => exact Nat.zero_le 1
  | null => exact Nat.le_refl 1
  | number => exact Nat.le_refl 1

/-- Only `null` and numerals may stand under the name of a limit. -/
theorem Given.eq_of_mem {js : List Json} {o : Option Nat} (h : Given js o) {j : Json}
    (hj : j ∈ js) : j = .null ∨ ∃ n < Json.wordBound, j = .ofNat n := by
  cases h with
  | absent => cases hj
  | null => exact .inl (List.mem_singleton.1 hj)
  | number hn => exact .inr ⟨_, hn, List.mem_singleton.1 hj⟩

/-- One value gives what it is read as: no limit if it is `null`, and else a natural number. -/
theorem given_singleton_iff {j : Json} (hj : j.WellFormed) {o : Option Nat} :
    Given [j] o ↔ (j = .null ∧ o = none) ∨ ∃ n, Json.nat? j = some n ∧ o = some n := by
  constructor
  · intro h
    cases h with
    | null => exact .inl ⟨rfl, rfl⟩
    | number hn => exact .inr ⟨_, Json.nat?_ofNat hn, rfl⟩
  · rintro (⟨rfl, rfl⟩ | ⟨n, hn, rfl⟩)
    · exact .null
    · cases hj with
      | number hl =>
        obtain ⟨hbound, heq⟩ := hl.nat?_eq_some_iff.1 hn
        rw [heq]
        exact .number hbound
      | _ => cases hn

/-- Machine words hold the limits. -/
def Fits (l : Limits) : Prop :=
  (∀ n, l.steps = some n → n < Json.wordBound) ∧ ∀ n, l.trail = some n → n < Json.wordBound

end Limits

namespace Document

open Limits (Given)

variable {fs : Fields} {name : String} {js : List Json}

/-- A field for a limit that is given once at most is read as the limit that it stands for. -/
theorem optional_nat_eq_some_iff (hlookup : fs.lookup name = js.head?) (hlength : js.length ≤ 1)
    (hjs : ∀ j ∈ js, j.WellFormed) {o : Option Nat} :
    fs.optional name ofJson? = some o ↔ Given js o := by
  cases js with
  | nil =>
    rw [Json.Fields.optional_of_absent hlookup]
    constructor
    · rintro ⟨⟩
      exact .absent
    · rintro ⟨⟩
      rfl
  | cons j js =>
    obtain rfl : js = [] := List.eq_nil_of_length_eq_zero (by simpa using hlength)
    rw [Limits.given_singleton_iff (hjs j List.mem_cons_self)]
    by_cases hnull : j = .null
    · subst hnull
      rw [Json.Fields.optional_of_null hlookup]
      simp [Json.nat?, eq_comm]
    · rw [Json.Fields.optional_of_ne_null hlookup hnull, Option.map_eq_some_iff]
      simp only [hnull, false_and, false_or, eq_comm (a := o)]
      rfl

variable {ms : List (List Char × Json)}

/-- **Limits are what the members of their names say.** -/
theorem limits_ofJson?_object_iff (hms : (Json.object ms).WellFormed) {l : Limits} :
    ofJson? (.object ms) = some l ↔
      ∃ fs, Named ms fs ∧ Given (fs.valuesOf "step_limit") l.steps ∧
        Given (fs.valuesOf "trail_limit") l.trail := by
  cases hms with
  | object hkeys hvalues =>
    have hfield {fs : Fields} (hnamed : Named ms fs) {name : String}
        (hname : name ∈ ["step_limit", "trail_limit"]) {o : Option Nat}
        (hlength : (fs.valuesOf name).length ≤ 1) :
        (fs.known ["step_limit", "trail_limit"]).optional name ofJson? = some o ↔
          Given (fs.valuesOf name) o :=
      optional_nat_eq_some_iff ((Json.Fields.lookup_eq_head? _ name).trans
        (congrArg List.head? (Json.Fields.valuesOf_known hname))) hlength
        (hnamed.forall_mem_valuesOf hvalues name)
    simp only [ofJson?, Option.bind_eq_bind, Option.bind_eq_some_iff,
      Json.fields?_object_eq_some_iff hkeys]
    constructor
    · rintro ⟨-, ⟨fs, hnamed, hlength, rfl⟩, steps, hsteps, trail, htrail, hl⟩
      obtain rfl := Option.some.inj hl
      exact ⟨fs, hnamed, (hfield hnamed (by simp) (hlength _ (by simp))).1 hsteps,
        (hfield hnamed (by simp) (hlength _ (by simp))).1 htrail⟩
    · rintro ⟨fs, hnamed, hsteps, htrail⟩
      have hlength : ∀ name ∈ ["step_limit", "trail_limit"], (fs.valuesOf name).length ≤ 1 := by
        simpa using ⟨hsteps.length_le, htrail.length_le⟩
      exact ⟨_, ⟨fs, hnamed, hlength, rfl⟩, l.steps,
        (hfield hnamed (by simp) hsteps.length_le).2 hsteps, l.trail,
        (hfield hnamed (by simp) htrail.length_le).2 htrail, rfl⟩

/-- What is written for a limit says what the limit is. -/
theorem given_ofOption {o : Option Nat} (h : ∀ n, o = some n → n < Json.wordBound) :
    Given [Json.ofOption toJson o] o := by
  cases o with
  | none => exact .null
  | some n => exact .number (h n rfl)

/-- What is written for a limit is a well-formed value, whether there is a limit or not. -/
theorem wellFormed_ofOption (o : Option Nat) : (Json.ofOption toJson o).WellFormed := by
  cases o with
  | none => exact .null
  | some n => exact .number (Json.numeral_numeral n)

/-- Limits survive if machine words hold them. -/
theorem survives_limits {l : Limits} (h : l.Fits) : Survives l := by
  have hwellFormed : (toJson l).WellFormed := by
    refine Json.wellFormed_ofMembers ?_
    simp only [List.forall_mem_cons]
    exact ⟨wellFormed_ofOption l.steps, wellFormed_ofOption l.trail, List.forall_mem_nil _⟩
  refine ⟨(limits_ofJson?_object_iff hwellFormed).2 ⟨_, Json.named_escape _, ?_, ?_⟩, hwellFormed⟩
  · exact given_ofOption h.1
  · exact given_ofOption h.2

end Document

/-- **Limits are read from every object that gives them, and from no other.** Let a document begin,
after blanks, with the text of an object, and go on with `rest`.

* Limits are read from it just if nothing but blanks follows, every key spells a name, and what
  stands under the names of the two limits says that they are these: nothing or `null` for none, the
  numeral of a number that a machine word holds for this number. All other members, and the order of
  the members, do not matter.
* It is refused if anything but blanks follows, and if under the name of a limit stand two values or
  one that is neither `null` nor such a numeral.
* Limits that machine words hold are read from the document that is written for them. -/
theorem limits_read_object {document : String} {s rest : List Char}
    {ms : List (List Char × Json)} (hs : Json.Blanks document.toList s)
    (h : Json.Value s (.object ms) rest) :
    (∀ l : Limits, Document.read document = some l ↔
      Json.Blanks rest [] ∧ ∃ fs, Named ms fs ∧ Limits.Given (fs.valuesOf "step_limit") l.steps ∧
        Limits.Given (fs.valuesOf "trail_limit") l.trail) ∧
    (¬ Json.Blanks rest [] → (Document.read document : Option Limits) = none) ∧
    (∀ fs, Named ms fs → ∀ name ∈ ["step_limit", "trail_limit"],
      (1 < (fs.valuesOf name).length ∨
        ∃ j ∈ fs.valuesOf name, j ≠ .null ∧ ∀ n < Json.wordBound, j ≠ .ofNat n) →
      (Document.read document : Option Limits) = none) ∧
    ∀ l : Limits, l.Fits → ∀ layout, Document.read (Document.render layout l) = some l := by
  have hread : ∀ l : Limits, Document.read document = some l ↔
      Json.Blanks rest [] ∧ ∃ fs, Named ms fs ∧ Limits.Given (fs.valuesOf "step_limit") l.steps ∧
        Limits.Given (fs.valuesOf "trail_limit") l.trail := by
    intro l
    rw [Document.read, Option.bind_eq_some_iff, ← Document.limits_ofJson?_object_iff h.wellFormed]
    simp only [Json.read_eq_some_iff hs h, and_assoc, exists_and_left, exists_eq_left']
  refine ⟨hread, fun hrest => ?_, fun fs hnamed name hname hgiven => ?_,
    fun l hl layout => (Document.survives_limits hl).read_render layout⟩
  · refine Option.eq_none_iff_forall_ne_some.2 fun l hl => ?_
    exact hrest ((hread l).1 hl).1
  · refine Option.eq_none_iff_forall_ne_some.2 fun l hl => ?_
    obtain ⟨-, fs', hnamed', hsteps, htrail⟩ := (hread l).1 hl
    cases h.wellFormed with
    | object hkeys =>
      obtain rfl := hnamed.unique hnamed' hkeys
      obtain ⟨o, ho⟩ : ∃ o, Limits.Given (fs.valuesOf name) o := by
        simp only [List.mem_cons, List.not_mem_nil, or_false] at hname
        rcases hname with rfl | rfl
        · exact ⟨_, hsteps⟩
        · exact ⟨_, htrail⟩
      rcases hgiven with htwice | ⟨j, hj, hnull, hnumeral⟩
      · exact Nat.not_lt.2 ho.length_le htwice
      · rcases ho.eq_of_mem hj with rfl | ⟨n, hn, rfl⟩
        · exact hnull rfl
        · exact hnumeral n hn rfl

/-- Members with a name of a limit deeper inside, one whose key is written with an escape, and one
that is `null`. -/
def Limits.noted : List (List Char × Json) :=
  [(Json.escape "note".toList,
      .list [.object [(Json.escape "trail_limit".toList, .number ['-', '1', 'e', '3'])]]),
    ('\\' :: 'u' :: '0' :: '0' :: '7' :: '4' :: Json.escape "rail_limit".toList,
      .ofNat 18446744073709551615),
    (Json.escape "step_limit".toList, .null)]

/-- The greatest number is read, also with a blank after the object, but not with another brace. -/
theorem limits_read_object_noted :
    Document.read (String.ofList ((Json.object Limits.noted).write .indented 0 ++ ['\n'])) =
      some (⟨none, some 18446744073709551615⟩ : Limits) ∧
    (Document.read (String.ofList ((Json.object Limits.noted).write .indented 0 ++ ['}'])) :
      Option Limits) = none := by
  have hone : Json.Digits ['1'] := ⟨List.cons_ne_nil _ _, List.forall_mem_singleton.2 rfl⟩
  have hthree : Json.Digits ['3'] := ⟨List.cons_ne_nil _ _, List.forall_mem_singleton.2 rfl⟩
  have hminus : Json.Numeral (['-'] ++ ['1'] ++ [] ++ 'e' :: ([] ++ ['3'])) :=
    .mk (.inr rfl) (.digits hone (by decide)) .nil (.digits (.inl rfl) (.inl rfl) hthree)
  have hescaped : Json.Spells
      ('\\' :: 'u' :: '0' :: '0' :: '7' :: '4' :: Json.escape "rail_limit".toList)
      "trail_limit".toList :=
    .unit (rfl : Hex.numeral? ['0', '0', '7', '4'] = some 116) rfl rfl (Json.spells_escape _)
  have hnamed : Named Limits.noted
      [("note", .list [.object [(Json.escape "trail_limit".toList, .number ['-', '1', 'e', '3'])]]),
        ("trail_limit", .ofNat 18446744073709551615), ("step_limit", .null)] :=
    .cons ⟨Json.spells_escape _, rfl⟩
      (.cons ⟨hescaped, rfl⟩ (.cons ⟨Json.spells_escape _, rfl⟩ .nil))
  have hwellFormed : (Json.object Limits.noted).WellFormed := by
    refine .object ?_ ?_
    · simp only [Limits.noted, List.forall_mem_cons]
      exact ⟨Json.lexeme_escape _, hescaped.lexeme, Json.lexeme_escape _, List.forall_mem_nil _⟩
    · simp only [Limits.noted, List.forall_mem_cons]
      refine ⟨.list ?_, .number (Json.numeral_numeral _), .null, List.forall_mem_nil _⟩
      exact List.forall_mem_singleton.2 (.object
        (List.forall_mem_singleton.2 (Json.lexeme_escape _))
        (List.forall_mem_singleton.2 (.number hminus)))
  have hvalue (c : Char) (hc : Json.EndsNumber [c]) :
      Json.Value ((Json.object Limits.noted).write .indented 0 ++ [c]) (.object Limits.noted) [c] :=
    hwellFormed.value_write 0 [c] hc
  have hdocument (l : List Char) : Json.Blanks (String.ofList l).toList l := by
    rw [String.toList_ofList]
    exact .refl
  constructor
  · refine ((limits_read_object (hdocument _) (hvalue '\n' (by simp [Json.EndsNumber]))).1 _).2
      ⟨⟨['\n'], List.forall_mem_singleton.2 rfl, rfl⟩, _, hnamed, .null, .number (by decide)⟩
  · refine (limits_read_object (hdocument _) (hvalue '}' (by simp [Json.EndsNumber]))).2.1 ?_
    rw [← Json.skipBlanks_eq_nil_iff]
    decide

end StateMachine
