/-
# Values that survive their documents

A value survives if its JSON form is well-formed and reads back as the value. Its document then
does, in either layout, so that two surviving values with the same document are equal. Texts and
truth values survive, natural numbers that a machine word holds, and lists of what survives.

A record survives if its fields do: an object made of its members has its fields again.
-/

import StateMachine.Document.Basic
import StateMachine.Proofs.Json.Writer

namespace StateMachine

universe u v

/-- Decoding a list of codes gives the list if each code is decoded. -/
theorem mapM_decode_map {α : Type u} {β : Type v} {encode : α → β} {decode : β → Option α}
    {l : List α} (h : ∀ a ∈ l, decode (encode a) = some a) :
    (l.map encode).mapM decode = some l := by
  induction l with
  | nil => rfl
  | cons a l ih =>
    obtain ⟨ha, hl⟩ := List.forall_mem_cons.1 h
    rw [List.map_cons, List.mapM_cons, ha, ih hl]
    rfl

namespace Json

variable {names : List String} {form : ListForm} {fs : List (String × Json)}

/-- The names of members are read back from their lexemes. -/
theorem members?_ofMembers (fs : List (String × Json)) :
    members? (fs.map fun (key, value) => (escape key.toList, value)) = some fs :=
  mapM_decode_map fun m _ => by simp only [unescape_escape, Option.map_some]

/-- **An object of members has them as its fields,** if they are in the order of the record's names;
some may be left out. -/
theorem fields?_ofMembers (hnodup : names.Nodup) (h : (fs.map Prod.fst).Sublist names) :
    fields? names form (ofMembers fs) = some fs := by
  have hfilter : fs.filter (fun m => names.contains m.1) = fs :=
    List.filter_eq_self.2 fun m hm =>
      List.contains_iff_mem.2 (h.subset (List.mem_map_of_mem hm))
  rw [ofMembers, fields?, members?_ofMembers, Option.bind_some]
  simp only [hfilter, if_pos (hnodup.sublist h)]

/-- An object is well-formed if the values of its members are, whatever their names. -/
theorem wellFormed_ofMembers (h : ∀ m ∈ fs, WellFormed m.2) : WellFormed (ofMembers fs) := by
  refine .object (fun m hm => ?_) fun m hm => ?_
  · obtain ⟨m', -, rfl⟩ := List.mem_map.1 hm
    exact lexeme_escape _
  · obtain ⟨m', hm', rfl⟩ := List.mem_map.1 hm
    exact h m' hm'

/-- A text is well-formed as a JSON value, whatever its characters. -/
theorem wellFormed_ofString (s : String) : WellFormed (ofString s) := .text (lexeme_escape _)

end Json

namespace Document

variable {α : Type u}

/-- A step of a reader that succeeds leaves the rest of the reader to be done. -/
theorem bind_eq_some {β : Type u} {o : Option α} {k : α → Option β} {a : α} {b : β}
    (h : o = some a) (hk : k a = some b) : (o >>= k) = some b := by
  rw [h]
  exact hk

variable [Document α]

/-- The JSON form of the value is well-formed and reads back as the value. -/
structure Survives (a : α) : Prop where
  decodes : ofJson? (toJson a) = some a
  wellFormed : (toJson a).WellFormed

namespace Survives

variable {a b : α} {layout : Json.Layout}

/-- **A value that survives is read from its document.** -/
theorem read_render (h : Survives a) (layout : Json.Layout) :
    Document.read (render layout a) = some a := by
  rw [Document.read, render, h.wellFormed.read_render, Option.bind_some, h.decodes]

/-- Values that survive can be told apart by their documents. -/
theorem eq_of_render_eq (ha : Survives a) (hb : Survives b)
    (h : render layout a = render layout b) : a = b := by
  have hread := ha.read_render layout
  rw [h, hb.read_render layout] at hread
  exact (Option.some.inj hread).symm

end Survives

section Fields

variable {fs : Json.Fields} {name : String} {a : α} {o : Option α}

/-- A required field is read back if its value survives. -/
theorem Survives.required_eq (h : Survives a) (hlookup : fs.lookup name = some (toJson a)) :
    fs.required name ofJson? = some a := by
  rw [Json.Fields.required, hlookup, Option.bind_some, h.decodes]

/-- A value that may be absent is read back if it is not mistaken for an absent one. -/
theorem optional_eq (h : ∀ a ∈ o, Survives a) (hnull : ∀ a ∈ o, toJson a ≠ .null)
    (hlookup : fs.lookup name = o.map toJson) : fs.optional name ofJson? = some o := by
  rw [Json.Fields.optional, hlookup]
  cases o with
  | none => rfl
  | some a =>
    split
    · next heq => cases heq
    · next heq => exact absurd (Option.some.inj heq) (hnull a rfl)
    · next heq => rw [← Option.some.inj heq, (h a rfl).decodes, Option.map_some]

end Fields

/-- Every text survives. -/
theorem survives_string (s : String) : Survives s :=
  ⟨Json.string?_ofString s, Json.wellFormed_ofString s⟩

/-- Both truth values survive. -/
theorem survives_bool (b : Bool) : Survives b := ⟨rfl, .bool⟩

/-- A natural number survives if a machine word holds it; a larger one is refused on reading. -/
theorem survives_nat {n : Nat} (h : n < Json.wordBound) : Survives n :=
  ⟨Json.nat?_ofNat h, .number (Json.numeral_numeral n)⟩

/-- A list survives if its elements do. -/
theorem survives_list {l : List α} (h : ∀ a ∈ l, Survives a) : Survives l := by
  refine ⟨mapM_decode_map fun a ha => (h a ha).decodes, .list fun e he => ?_⟩
  obtain ⟨a, ha, rfl⟩ := List.mem_map.1 he
  exact (h a ha).wellFormed

end Document
end StateMachine
