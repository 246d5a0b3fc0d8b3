/-
# Descriptions survive their documents

Each member that may be left out is either there under its own name or not there at all, so the
members of a transition are some of its fields in their order. What is absent is absent again, and
an empty text that is present is present again.
-/

import StateMachine.Document.Description
import StateMachine.Proofs.Document.Basic

namespace StateMachine
namespace Document

section Present

variable {fields : List (String × Option Json)} {name : String} {o : Option Json}

/-- The members of an object with these fields: those that are present, in their order. -/
def presentMembers (fields : List (String × Option Json)) : List (String × Json) :=
  fields.filterMap fun f => f.2.map (Prod.mk f.1)

/-- The names of the members are some of the names of the fields, in the same order. -/
theorem sublist_presentMembers :
    ((presentMembers fields).map Prod.fst).Sublist (fields.map Prod.fst) := by
  induction fields with
  | nil => exact .slnil
  | cons f fields ih =>
    obtain ⟨name, _ | v⟩ := f
    · exact ih.cons name
    · exact ih.cons_cons name

/-- **Every field is found under its name** if no two fields have the same name: its value if it is
present, and nothing if it is absent. -/
theorem lookup_presentMembers (hnodup : (fields.map Prod.fst).Nodup) (h : (name, o) ∈ fields) :
    (presentMembers fields).lookup name = o := by
  induction fields with
  | nil => cases h
  | cons f fields ih =>
    obtain ⟨hfresh, hrest⟩ := List.nodup_cons.1 hnodup
    rcases List.mem_cons.1 h with rfl | hfield
    · cases o with
      | none =>
        refine List.lookup_eq_none_iff.2 fun m hm => bne_iff_ne.2 ?_
        rintro rfl
        exact hfresh (sublist_presentMembers.subset (List.mem_map_of_mem hm))
      | some v => exact List.lookup_cons_self
    · have hne : name ≠ f.1 := fun heq => hfresh (heq ▸ List.mem_map_of_mem hfield)
      obtain ⟨name', _ | v⟩ := f
      · exact ih hrest hfield
      · rw [presentMembers, List.filterMap_cons_some (by rfl), List.lookup_cons, beq_false_of_ne hne]
        exact ih hrest hfield

/-- Members are well-formed if the fields that are present are. -/
theorem wellFormed_of_mem_presentMembers (h : ∀ f ∈ fields, ∀ v ∈ f.2, v.WellFormed)
    {m : String × Json} (hm : m ∈ presentMembers fields) : m.2.WellFormed := by
  obtain ⟨f, hf, v, hv, rfl⟩ : ∃ f ∈ fields, ∃ v, f.2 = some v ∧ (f.1, v) = m := by
    simpa only [presentMembers, List.mem_filterMap, Option.map_eq_some_iff] using hm
  exact h f hf v hv

end Present

section Edge

variable {o : Option String} (e : EdgeDescription)

/-- A text that may be absent is never mistaken for an absent one. -/
theorem optional_string {fs : Json.Fields} {name : String} (h : fs.lookup name = o.map toJson) :
    fs.optional name ofJson? = some o := by
  refine optional_eq (fun s _ => survives_string s) (fun s _ hs => ?_) h
  cases hs

/-- A text that may be absent is well-formed where it is present. -/
theorem wellFormed_of_mem_map {v : Json} (h : v ∈ o.map toJson) : v.WellFormed := by
  obtain ⟨s, -, rfl⟩ := Option.map_eq_some_iff.1 h
  exact Json.wellFormed_ofString s

/-- The fields of a transition. -/
def edgeFields : List (String × Option Json) :=
  [("target", some (toJson e.target)), ("label", e.label.map toJson),
    ("guarded", some (toJson e.guarded)), ("pop", e.pop.map toJson), ("push", e.push.map toJson)]

/-- The object of a transition is made of the fields that are present. -/
theorem toJson_edge : toJson e = .ofMembers (presentMembers (edgeFields e)) := by
  obtain ⟨target, _ | label, guarded, _ | pop, _ | push⟩ := e <;> rfl

/-- Every field of a transition is found under its name. -/
theorem lookup_edge {name : String} {v : Option Json} (h : (name, v) ∈ edgeFields e) :
    (presentMembers (edgeFields e)).lookup name = v :=
  lookup_presentMembers (by decide : ["target", "label", "guarded", "pop", "push"].Nodup) h

/-- Every description of a transition survives, with its absent fields absent and its empty texts
present. -/
theorem survives_edge : Survives e where
  decodes := by
    rw [toJson_edge]
    exact
      bind_eq_some (Json.fields?_ofMembers (by decide) sublist_presentMembers) <|
      bind_eq_some ((survives_string e.target).required_eq (lookup_edge e (by simp [edgeFields]))) <|
      bind_eq_some (optional_string (lookup_edge e (by simp [edgeFields]))) <|
      bind_eq_some ((survives_bool e.guarded).required_eq (lookup_edge e (by simp [edgeFields]))) <|
      bind_eq_some (optional_string (lookup_edge e (by simp [edgeFields]))) <|
      bind_eq_some (optional_string (lookup_edge e (by simp [edgeFields]))) rfl
  wellFormed := by
    rw [toJson_edge]
    refine Json.wellFormed_ofMembers fun m => wellFormed_of_mem_presentMembers ?_
    simp only [edgeFields, List.forall_mem_cons, Option.mem_some_iff, forall_eq']
    exact ⟨(survives_string e.target).wellFormed, fun v => wellFormed_of_mem_map,
      (survives_bool e.guarded).wellFormed, fun v => wellFormed_of_mem_map,
      fun v => wellFormed_of_mem_map, List.forall_mem_nil _⟩

end Edge

/-- Every description of a state survives, as its transitions do. -/
theorem survives_state (s : StateDescription) : Survives s := by
  have hname := survives_string s.name
  have haccepting := survives_bool s.accepting
  have htransitions : Survives s.transitions := survives_list fun e _ => survives_edge e
  refine ⟨?_, Json.wellFormed_ofMembers ?_⟩
  · exact bind_eq_some (Json.fields?_ofMembers (by decide) (.refl _)) <|
      bind_eq_some (hname.required_eq rfl) <|
      bind_eq_some (haccepting.required_eq rfl) <|
      bind_eq_some (htransitions.required_eq rfl) rfl
  · simp only [List.forall_mem_cons]
    exact ⟨hname.wellFormed, haccepting.wellFormed, htransitions.wellFormed, List.forall_mem_nil _⟩

/-- Every description survives, as its states do. -/
theorem survives_description (d : Description) : Survives d := by
  have hname := survives_string d.name
  have hinitial := survives_string d.initial
  have hstates : Survives d.states := survives_list fun s _ => survives_state s
  refine ⟨?_, Json.wellFormed_ofMembers ?_⟩
  · exact bind_eq_some (Json.fields?_ofMembers (by decide) (.refl _)) <|
      bind_eq_some (hname.required_eq rfl) <|
      bind_eq_some (hinitial.required_eq rfl) <|
      bind_eq_some (hstates.required_eq rfl) rfl
  · simp only [List.forall_mem_cons]
    exact ⟨hname.wellFormed, hinitial.wellFormed, hstates.wellFormed, List.forall_mem_nil _⟩

end Document

/-- **A description survives its document,** whatever its texts are. -/
theorem description_read_render (d : Description) :
    Document.read (Document.render .indented d) = some d :=
  (Document.survives_description d).read_render .indented

/-- An empty label stands in the document, an absent one does not. -/
example : Document.render .compact (⟨"b", some "", false, none, none⟩ : EdgeDescription) =
    "\x7b\"target\":\"b\",\"label\":\"\",\"guarded\":false\x7d" := by
  decide +kernel

end StateMachine
