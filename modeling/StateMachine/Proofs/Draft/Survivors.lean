/-
# Which declarations survive

A draft collects declared states in a row, each in the place of an earlier one of its name
(`Draft.place`). `Draft.surviving` says what is then in the row without going through it step by
step: the names in the order in which they first occur, and for each name the state declared last.
The two are the same (`Draft.foldl_place_eq_surviving`), however names are repeated, since one more
declaration changes `surviving` as `place` does (`Draft.surviving_concat`).

Of the initial states that are chosen in the course of the declarations, the last one counts
(`Draft.initial_ofDeclarations`).
-/

import Mathlib.Data.List.Basic
import Mathlib.Data.List.Induction
import StateMachine.Draft.Basic

namespace StateMachine

universe u v w

variable {C : Type u} {K : Type v} {σ : Type w}

/-- The state that a declaration declares, if it is about a state. -/
def Declaration.state? : Declaration C K → Option (DraftState C K)
  | .state s => some s
  | _ => none

/-- The initial state that a declaration chooses, if it is about this. -/
def Declaration.initial? : Declaration C K → Option String
  | .initial s => some s
  | _ => none

/-- A further element is new or a repetition. -/
theorem eraseDups_concat {α : Type u} [BEq α] [LawfulBEq α] (l : List α) (a : α) :
    (l ++ [a]).eraseDups = if l.contains a then l.eraseDups else l.eraseDups ++ [a] := by
  rw [List.eraseDups_append, List.cons_removeAll]
  cases l.contains a <;> simp [List.eraseDups_cons]

namespace Draft

/-- The state of the given name that comes last. -/
def latest (states : List (State C K σ)) (name : String) : Option (State C K σ) :=
  (states.filter fun s => s.name == name).getLast?

/-- One state for each name: in the place where the name comes first, the state of that name which
comes last. -/
def surviving (states : List (State C K σ)) : List (State C K σ) :=
  (states.map State.name).eraseDups.filterMap (latest states)

section Surviving

variable {states : List (State C K σ)} {s : State C K σ} {name : String}

/-- The latest state of a name has this name. -/
theorem name_of_latest (h : latest states name = some s) : s.name = name := by
  have hmem : s ∈ states.filter fun s => s.name == name := List.mem_of_getLast? h
  simpa using (List.mem_filter.1 hmem).2

/-- A name that occurs has a state that comes last. -/
theorem exists_latest (h : name ∈ states.map State.name) : ∃ s, latest states name = some s := by
  obtain ⟨t, ht, rfl⟩ := List.mem_map.1 h
  have hne : (states.filter fun s => s.name == t.name) ≠ [] :=
    List.ne_nil_of_mem (List.mem_filter.2 ⟨ht, by simp⟩)
  exact ⟨_, List.getLast?_eq_some_getLast hne⟩

/-- A further state becomes the last one of its name, and of no other. -/
theorem latest_concat (states : List (State C K σ)) (s : State C K σ) (name : String) :
    latest (states ++ [s]) name = if s.name = name then some s else latest states name := by
  unfold latest
  by_cases h : s.name = name
  · simp [h]
  · simp [h]

/-- The names that survive are those that occur, in the order of their first occurrences. -/
theorem names_surviving (states : List (State C K σ)) :
    (surviving states).map State.name = (states.map State.name).eraseDups := by
  have hname : ∀ name ∈ (states.map State.name).eraseDups,
      (latest states name).map State.name = some name := by
    intro name h
    obtain ⟨s, hs⟩ := exists_latest (List.mem_eraseDups.1 h)
    rw [hs, Option.map_some, name_of_latest hs]
  rw [surviving, List.map_filterMap, List.filterMap_congr hname, List.filterMap_some]

/-- **One more declaration** replaces the survivor of its name, or is a further survivor. -/
theorem surviving_concat (states : List (State C K σ)) (s : State C K σ) :
    surviving (states ++ [s]) = place (surviving states) s := by
  have hmem : s.name ∈ (surviving states).map State.name ↔ s.name ∈ states.map State.name := by
    rw [names_surviving, List.mem_eraseDups]
  -- Among the names that occur already, only that of `s` has a new last state.
  have hold : ∀ name ∈ (states.map State.name).eraseDups,
      (latest states name).map (fun t => if t.name = s.name then s else t) =
        latest (states ++ [s]) name := by
    intro name h
    obtain ⟨t, ht⟩ := exists_latest (List.mem_eraseDups.1 h)
    rw [latest_concat, ht, Option.map_some, name_of_latest ht]
    by_cases hs : s.name = name
    · simp [hs]
    · simp [hs, Ne.symm hs]
  have hnames : ((states ++ [s]).map State.name).eraseDups =
      if s.name ∈ states.map State.name then (states.map State.name).eraseDups
      else (states.map State.name).eraseDups ++ [s.name] := by
    rw [List.map_append, List.map_cons, List.map_nil, eraseDups_concat]
    simp only [List.contains_eq_mem, decide_eq_true_eq]
  unfold place
  by_cases hs : s.name ∈ states.map State.name
  · rw [if_pos (hmem.2 hs), surviving, hnames, if_pos hs, surviving, List.map_filterMap,
      List.filterMap_congr hold]
  · have hsame : ∀ name ∈ (states.map State.name).eraseDups,
        latest (states ++ [s]) name = latest states name := by
      intro name h
      have hne : s.name ≠ name := fun e => hs (e ▸ List.mem_eraseDups.1 h)
      rw [latest_concat, if_neg hne]
    have hlast : latest (states ++ [s]) s.name = some s := by
      rw [latest_concat, if_pos rfl]
    rw [if_neg (mt hmem.1 hs), surviving, hnames, if_neg hs, List.filterMap_append,
      List.filterMap_congr hsame]
    simp [hlast, surviving]

/-- **The row of a draft holds the states that survive.** -/
theorem foldl_place_eq_surviving (states : List (State C K σ)) :
    states.foldl place [] = surviving states := by
  induction states using List.reverseRecOn with
  | nil => rfl
  | append_singleton states s ih =>
    rw [List.foldl_append, List.foldl_cons, List.foldl_nil, ih, surviving_concat]

end Surviving

section Declarations

/-- The declared states are collected in their order. -/
theorem states_foldl_declare (l : List (Declaration C K)) (d : Draft C K) :
    (l.foldl declare d).states = d.states ++ l.filterMap Declaration.state? := by
  induction l generalizing d with
  | nil => simp
  | cons x l ih =>
    rw [List.foldl_cons, ih]
    cases x <;> simp [declare, Declaration.state?, List.filterMap_cons]

/-- A later choice of the initial state replaces an earlier one. -/
theorem initial_foldl_declare (l : List (Declaration C K)) (d : Draft C K) :
    (l.foldl declare d).initial = (l.filterMap Declaration.initial?).getLast?.or d.initial := by
  induction l generalizing d with
  | nil => simp
  | cons x l ih =>
    rw [List.foldl_cons, ih]
    cases x with
    | initial name =>
      have hcons : (Declaration.initial name :: l).filterMap Declaration.initial? =
          name :: l.filterMap Declaration.initial? := rfl
      rw [hcons, List.getLast?_cons]
      cases (l.filterMap Declaration.initial?).getLast? <;> rfl
    | name _ => rfl
    | state _ => rfl
    | policy _ => rfl

/-- The states that survive the declarations. -/
def rowOf (l : List (Declaration C K)) : List (DraftState C K) :=
  surviving (l.filterMap Declaration.state?)

/-- The initial state that is chosen last. -/
def initialOf (l : List (Declaration C K)) : Option String :=
  (l.filterMap Declaration.initial?).getLast?

/-- The states that survive in a draft are those of the row its declarations leave. -/
theorem survivors_ofDeclarations (l : List (Declaration C K)) :
    (ofDeclarations l).survivors = rowOf l := by
  rw [survivors, foldl_place_eq_surviving, ofDeclarations, states_foldl_declare]
  rfl

/-- The initial state of a draft is the one chosen last. -/
theorem initial_ofDeclarations (l : List (Declaration C K)) :
    (ofDeclarations l).initial = initialOf l := by
  rw [ofDeclarations, initial_foldl_declare]
  exact Option.or_none

end Declarations
end Draft
end StateMachine
