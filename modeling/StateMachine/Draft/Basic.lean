/-
# Drafts: machines being declared

A draft is put together from declarations, in any order: a name, an initial state, states, a policy
for impasses. A later name, initial state or policy replaces an earlier one. States are named by
text, and so are the targets of their transitions.

A state may be declared again: the later declaration takes the place of the earlier one in the row,
so `survivors` has one state for each declared name, at the position of the name's first
declaration and with the content of its last.
-/

import StateMachine.State

namespace StateMachine

universe u v w

/-- A state as it is declared, its transitions' targets given by name. -/
abbrev DraftState (C : Type u) (K : Type v) := State C K String

/-- One declaration about a machine. -/
inductive Declaration (C : Type u) (K : Type v) where
  | name (name : String)
  | initial (name : String)
  | state (state : DraftState C K)
  | policy (policy : Policy C K)

/-- All that has been declared about a machine. -/
structure Draft (C : Type u) (K : Type v) where
  name : Option String := none
  initial : Option String := none
  /-- Every declared state, the first one first, also those that are declared again. -/
  states : List (DraftState C K) := []
  policy : Policy C K := default

namespace Draft

variable {C : Type u} {K : Type v} {σ : Type w}

/-- The draft with one more declaration. -/
def declare (d : Draft C K) : Declaration C K → Draft C K
  | .name s => { d with name := some s }
  | .initial s => { d with initial := some s }
  | .state s => { d with states := d.states ++ [s] }
  | .policy p => { d with policy := p }

/-- The draft that the declarations make, the first one first. -/
def ofDeclarations (l : List (Declaration C K)) : Draft C K := l.foldl declare {}

/-- Puts a state into a row: in the place of the one of its name, else at the end. -/
def place (row : List (State C K σ)) (s : State C K σ) : List (State C K σ) :=
  if s.name ∈ row.map State.name then
    row.map fun t => if t.name = s.name then s else t
  else
    row ++ [s]

/-- One state for each declared name. -/
def survivors (d : Draft C K) : List (DraftState C K) := d.states.foldl place []

/-- The names of `survivors`, in the order of their first declaration. -/
def names (d : Draft C K) : List String := d.survivors.map State.name

/-- A replaced state leaves the names as they are, a new one adds its own at the end. -/
theorem names_place (row : List (State C K σ)) (s : State C K σ) :
    (place row s).map State.name =
      if s.name ∈ row.map State.name then row.map State.name
      else row.map State.name ++ [s.name] := by
  unfold place
  split
  · rw [List.map_map]
    refine List.map_congr_left fun t _ => ?_
    by_cases h : t.name = s.name <;> simp [h]
  · simp

/-- Placing a state keeps the names distinct. -/
theorem nodup_place {row : List (State C K σ)} (h : (row.map State.name).Nodup)
    (s : State C K σ) : ((place row s).map State.name).Nodup := by
  rw [names_place]
  split
  · exact h
  · rename_i hs
    refine List.nodup_append.2 ⟨h, by simp, fun a ha b hb => ?_⟩
    rw [List.mem_singleton.1 hb]
    exact fun e => hs (e ▸ ha)

/-- Placing states one after the other keeps the names of a row distinct. -/
theorem nodup_foldl_place (l : List (State C K σ)) {row : List (State C K σ)}
    (h : (row.map State.name).Nodup) : ((l.foldl place row).map State.name).Nodup := by
  induction l generalizing row with
  | nil => exact h
  | cons s l ih => exact ih (nodup_place h s)

/-- **Each name survives once.** -/
theorem nodup_names (d : Draft C K) : d.names.Nodup := nodup_foldl_place _ List.nodup_nil

end Draft
end StateMachine
