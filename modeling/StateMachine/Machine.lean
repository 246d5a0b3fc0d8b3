/-
# Machines

A machine is a fixed row of states with distinct names, one of them initial, and a policy for
impasses. Its transitions lead to positions in the row, so every target exists by type. A machine
is only a plan: the context, the symbol stack and the current state belong to a run.
-/

import StateMachine.State

namespace StateMachine

universe u v

/-- A state machine over contexts `C` with stack symbols `K`. -/
structure Machine (C : Type u) (K : Type v) where
  name : String
  /-- The number of states. -/
  count : Nat
  states : Vector (State C K (Fin count)) count
  initial : Fin count
  policy : Policy C K
  names_nodup : (states.toList.map State.name).Nodup

namespace Machine

variable {C : Type u} {K : Type v}

/-- The state at a position. -/
def state (m : Machine C K) (i : Fin m.count) : State C K (Fin m.count) := m.states[i]

/-- The name of the state at a position. -/
def stateName (m : Machine C K) (i : Fin m.count) : String := (m.state i).name

/-- The position of the state with the given name. -/
def find? (m : Machine C K) (name : String) : Option (Fin m.count) :=
  m.states.findFinIdx? fun s => s.name == name

/-- Decides an impasse in a state: the state's own handler comes before the policy. -/
def decide [Input C] (m : Machine C K) (i : Fin m.count) (c : C) (s : Stack K) : C × Outcome :=
  let state := m.state i
  let impasse : Impasse K := { state := state.name, accepting := state.accepting, stack := s }
  match state.onImpasse with
  | some handler => handler c impasse
  | none => m.policy.decide c impasse

/-- The names in the row are those of the states. -/
theorem mem_names_iff {m : Machine C K} {name : String} :
    name ∈ m.states.toList.map State.name ↔ ∃ i, m.stateName i = name := by
  constructor
  · intro h
    obtain ⟨s, hs, rfl⟩ := List.mem_map.1 h
    obtain ⟨k, hk, rfl⟩ := List.mem_iff_getElem.1 hs
    exact ⟨⟨k, by simpa using hk⟩, by simp [stateName, state]⟩
  · rintro ⟨i, rfl⟩
    exact List.mem_map_of_mem (by simp [state])

/-- **Names identify states.** -/
theorem stateName_injective (m : Machine C K) : Function.Injective m.stateName := by
  intro i j h
  have hn : ∀ k : Fin m.count, (m.states.toList.map State.name)[k.val]? = some (m.stateName k) := by
    intro k
    simp [stateName, state, Vector.toList]
  refine Fin.ext ((List.getElem?_inj ?_ m.names_nodup).1 ?_)
  · simp [Vector.toList]
  · rw [hn, hn, h]

/-- A position is found by the name of its state, and by no other. -/
theorem find?_eq_some_iff {m : Machine C K} {name : String} {i : Fin m.count} :
    m.find? name = some i ↔ m.stateName i = name := by
  constructor
  · intro h
    obtain ⟨j, hj, rfl⟩ := Option.map_eq_some_iff.1 h
    exact eq_of_beq (Array.findFinIdx?_eq_some_iff.1 hj).1
  · intro h
    cases hf : m.find? name with
    | some j =>
      obtain ⟨k, hk, rfl⟩ := Option.map_eq_some_iff.1 hf
      have hn := eq_of_beq (Array.findFinIdx?_eq_some_iff.1 hk).1
      exact congrArg some (m.stateName_injective (hn.trans h.symm))
    | none =>
      have hn := Vector.findFinIdx?_eq_none_iff.1 hf _ (Vector.getElem_mem i.isLt)
      exact absurd (beq_iff_eq.2 h) hn

/-- A name is not found just if no state has it. -/
theorem find?_eq_none_iff {m : Machine C K} {name : String} :
    m.find? name = none ↔ ∀ i, m.stateName i ≠ name := by
  rw [Option.eq_none_iff_forall_ne_some]
  exact ⟨fun h i hi => h i (find?_eq_some_iff.2 hi), fun h i hi => h i (find?_eq_some_iff.1 hi)⟩

end Machine
end StateMachine
