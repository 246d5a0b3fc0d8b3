/-
# The fields of a record

The members of an object are named by what their keys spell (`Named`). A record passes over members
whose names are not its own. It reads an object just if all members have names and each name of its
own is given once at most (`fields?_object_eq_some_iff`), and finds under such a name the value that
is given for it. So it does not matter in which order the members stand.
-/

import StateMachine.Json.Record
import StateMachine.Proofs.Json.Spelling
import Mathlib.Data.List.Nodup

namespace StateMachine
namespace Json

universe u

/-- The members have the given names: their keys spell them. -/
def Named (ms : List (List Char × Json)) (fs : Fields) : Prop :=
  List.Forall₂ (fun m f => Spells m.1 f.1.toList ∧ m.2 = f.2) ms fs

namespace Fields

/-- The values that are given under a name, in their order. -/
def valuesOf (fs : Fields) (name : String) : List Json :=
  (fs.filter fun f => f.1 == name).map Prod.snd

/-- The fields with the given names, without those that are passed over. -/
def known (names : List String) (fs : Fields) : Fields := fs.filter fun f => names.contains f.1

variable {names : List String} {name : String} {fs : Fields}

/-- A name has as many values as there are members of this name. -/
theorem length_valuesOf (fs : Fields) (name : String) :
    (fs.valuesOf name).length = (fs.map Prod.fst).count name := by
  rw [valuesOf, List.length_map, ← List.countP_eq_length_filter, List.count, List.countP_map]
  rfl

/-- The first value that is given under a name is found. -/
theorem lookup_eq_head? (fs : Fields) (name : String) :
    fs.lookup name = (fs.valuesOf name).head? := by
  induction fs with
  | nil => rfl
  | cons f fs ih =>
    by_cases h : name = f.1
    · subst h
      rw [List.lookup_cons, beq_self_eq_true]
      simp [valuesOf]
    · have hne : f.1 ≠ name := fun heq => h heq.symm
      rw [List.lookup_cons, beq_false_of_ne h, ih]
      simp [valuesOf, hne]

/-- What is passed over is not given under a name of the record. -/
theorem valuesOf_known (h : name ∈ names) : (fs.known names).valuesOf name = fs.valuesOf name := by
  rw [valuesOf, known, List.filter_filter]
  refine congrArg (List.map Prod.snd) (List.filter_congr fun f _ => ?_)
  by_cases hf : f.1 = name
  · simp [hf, h]
  · simp [hf]

/-- The known fields have distinct names just if no name of the record is given twice. -/
theorem nodup_known_iff :
    ((fs.known names).map Prod.fst).Nodup ↔ ∀ name ∈ names, (fs.valuesOf name).length ≤ 1 := by
  have hmap : (fs.known names).map Prod.fst = (fs.map Prod.fst).filter names.contains := by
    rw [List.filter_map]
    rfl
  rw [hmap, List.nodup_iff_count_le_one]
  constructor
  · intro h name hname
    rw [length_valuesOf, ← List.count_filter (List.contains_iff_mem.2 hname)]
    exact h name
  · intro h name
    by_cases hname : name ∈ names
    · rw [List.count_filter (List.contains_iff_mem.2 hname), ← length_valuesOf]
      exact h name hname
    · rw [List.count_eq_zero_of_not_mem fun hmem =>
        hname (List.contains_iff_mem.1 (List.mem_filter.1 hmem).2)]
      exact Nat.zero_le 1

section Optional

variable {α : Type u} {decode : Json → Option α}

/-- An optional field is absent if there is no member of its name. -/
theorem optional_of_absent (h : fs.lookup name = none) : fs.optional name decode = some none := by
  rw [optional, h]

/-- An optional field is absent if the member of its name is null. -/
theorem optional_of_null (h : fs.lookup name = some .null) :
    fs.optional name decode = some none := by
  rw [optional, h]

/-- Any other member has to be decoded, and the field fails if it cannot be. -/
theorem optional_of_ne_null {j : Json} (h : fs.lookup name = some j) (hj : j ≠ .null) :
    fs.optional name decode = (decode j).map some := by
  rw [optional, h]
  cases j with
  | null => exact absurd rfl hj
  | _ => rfl

end Optional

end Fields

variable {ms : List (List Char × Json)} {fs : Fields}

/-- An object that is written with names has its members named so. -/
theorem named_escape (fs : Fields) :
    Named (fs.map fun (key, value) => (escape key.toList, value)) fs := by
  induction fs with
  | nil => exact .nil
  | cons f fs ih => exact .cons ⟨spells_escape f.1, rfl⟩ ih

/-- The members are read with the names that their keys spell. -/
theorem members?_eq_some_iff (h : ∀ m ∈ ms, Lexeme m.1) : members? ms = some fs ↔ Named ms fs := by
  induction ms generalizing fs with
  | nil =>
    rw [Named, List.forall₂_nil_left_iff]
    exact ⟨fun h => (Option.some.inj h).symm, fun h => congrArg some h.symm⟩
  | cons m ms ih =>
    obtain ⟨hkey, hms⟩ := List.forall_mem_cons.1 h
    obtain ⟨key, value⟩ := m
    rw [members?, List.mapM_cons, Named, List.forall₂_cons_left_iff]
    simp only [Option.bind_eq_bind, Option.bind_eq_some_iff, Option.map_eq_some_iff,
      Option.pure_def]
    constructor
    · rintro ⟨f, ⟨name, hname, rfl⟩, fs', hfs', heq⟩
      exact ⟨(name, value), fs', ⟨hkey.unescape_eq_some_iff.1 hname, rfl⟩, (ih hms).1 hfs',
        (Option.some.inj heq).symm⟩
    · rintro ⟨⟨name, _⟩, fs', ⟨hname, rfl⟩, hfs', rfl⟩
      exact ⟨(name, value), ⟨name, hkey.unescape_eq_some_iff.2 hname, rfl⟩, fs', (ih hms).2 hfs',
        rfl⟩

/-- Members have one name each at most. -/
theorem Named.unique {fs' : Fields} (h : Named ms fs) (h' : Named ms fs')
    (hms : ∀ m ∈ ms, Lexeme m.1) : fs = fs' :=
  Option.some.inj (((members?_eq_some_iff hms).2 h).symm.trans ((members?_eq_some_iff hms).2 h'))

/-- What holds of the values of all members holds of all that is given under a name. -/
theorem Named.forall_mem_valuesOf {P : Json → Prop} (h : Named ms fs) (hms : ∀ m ∈ ms, P m.2)
    (name : String) : ∀ j ∈ fs.valuesOf name, P j := by
  have hfs : ∀ f ∈ fs, P f.2 := by
    induction h with
    | nil => exact List.forall_mem_nil _
    | cons hm _ ih =>
      obtain ⟨hvalue, hms⟩ := List.forall_mem_cons.1 hms
      exact List.forall_mem_cons.2 ⟨hm.2 ▸ hvalue, ih hms⟩
  intro j hj
  obtain ⟨f, hf, rfl⟩ := List.mem_map.1 hj
  exact hfs f (List.mem_filter.1 hf).1

/-- **A record reads an object** whose members all have names, none of its own twice: the fields are
those with its own names. -/
theorem fields?_object_eq_some_iff {names : List String} {form : ListForm} {taken : Fields}
    (h : ∀ m ∈ ms, Lexeme m.1) :
    fields? names form (.object ms) = some taken ↔
      ∃ fs : Fields, Named ms fs ∧ (∀ name ∈ names, (fs.valuesOf name).length ≤ 1) ∧
        fs.known names = taken := by
  simp only [fields?, Option.bind_eq_some_iff, members?_eq_some_iff h, ← Fields.nodup_known_iff,
    Option.ite_none_right_eq_some, Option.some.injEq]
  rfl

end Json
end StateMachine
