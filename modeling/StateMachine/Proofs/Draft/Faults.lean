/-
# What is wrong with a draft

`Draft.faultsOf` lists what is wrong with a row of states and the choice of an initial one, in the
order in which building reports it. The check of a draft has these faults (`Draft.faults_check`) and
fails only if there are some (`Draft.honest_check`), so building fails exactly if the list is not
empty, and tells just these faults (`Draft.of_build_eq_error`, `Draft.faultsOf_of_build`).
-/

import Mathlib.Data.List.Basic
import StateMachine.Draft.Build

namespace StateMachine

universe u v

variable {C : Type u} {K : Type v}

namespace BuildError

/-- Faults that each stand for themselves alone are not lost by reporting them together. -/
theorem faults_ofFaults {l : List BuildError} (h : ∀ f ∈ l, f.faults = [f]) :
    (ofFaults l).faults = l := by
  have hall : allFaults l = l := by
    rw [allFaults_eq_flatMap, List.flatMap_congr h, List.flatMap_singleton']
  unfold ofFaults
  split
  · exact h _ (List.mem_singleton_self _)
  · rw [faults, hall]

/-- Two or more faults are reported together. -/
theorem ofFaults_of_two_le {l : List BuildError} (h : 2 ≤ l.length) : ofFaults l = multiple l := by
  match l, h with
  | _ :: _ :: _, _ => rfl

end BuildError

namespace Check

variable {α : Type u} {β : Type v}

/-- Two checks made together have the faults of the first one and then those of the second one. -/
theorem faults_both (x : Check α) (y : Check β) : (both x y).faults = x.faults ++ y.faults := by
  cases x <;> cases y <;> rfl

/-- What is made of the result of a check does not change its faults. -/
theorem faults_map (x : Check α) (f : α → β) : faults (x.map f) = x.faults := by
  cases x <;> rfl

/-- The faults of a list are those of its elements, one element after the other. -/
theorem faults_all (f : α → Check β) (l : List α) :
    (all f l).faults = l.flatMap fun a => (f a).faults := by
  induction l with
  | nil => rfl
  | cons a l ih => rw [all, faults_map, faults_both, ih, List.flatMap_cons]

/-- A check that fails has a fault to show. -/
def Honest (x : Check α) : Prop := x.faults = [] → ∃ a, x = .ok a

/-- An honest check stays honest if something else is made of its result. -/
theorem Honest.map {x : Check α} (h : x.Honest) (f : α → β) : Honest (x.map f) := by
  intro hf
  rw [faults_map] at hf
  obtain ⟨a, rfl⟩ := h hf
  exact ⟨f a, rfl⟩

/-- Two honest checks are honest together. -/
theorem Honest.both {x : Check α} {y : Check β} (hx : x.Honest) (hy : y.Honest) :
    (both x y).Honest := by
  intro hf
  rw [faults_both, List.append_eq_nil_iff] at hf
  obtain ⟨a, rfl⟩ := hx hf.1
  obtain ⟨b, rfl⟩ := hy hf.2
  exact ⟨(a, b), rfl⟩

/-- Checking every element of a list honestly is an honest check of the list. -/
theorem Honest.all {f : α → Check β} (h : ∀ a, (f a).Honest) (l : List α) : (all f l).Honest := by
  induction l with
  | nil => exact fun _ => ⟨[], rfl⟩
  | cons a l ih => exact ((h a).both ih).map _

end Check

namespace Draft

section Faults

/-- What is wrong with the choice of an initial state among the given names. -/
def initialFaults (names : List String) : Option String → List BuildError
  | none => [.missingInitial]
  | some name => if name ∈ names then [] else [.unknownInitial name]

/-- The transitions of a state whose targets are not among the given names, as faults. -/
def targetFaults (names : List String) (s : DraftState C K) : List BuildError :=
  (s.transitions.filter fun t => t.target ∉ names).map fun t =>
    .undeclaredTarget s.name t.target

/-- All that is wrong with a row of states and the choice of an initial one among them. -/
def faultsOf (initial : Option String) (row : List (DraftState C K)) : List BuildError :=
  initialFaults (row.map State.name) initial ++ row.flatMap (targetFaults (row.map State.name))

/-- Something is wrong if there is no initial state, or one that is not in the row, or a target that
is not. -/
theorem faultsOf_ne_nil_iff {initial : Option String} {row : List (DraftState C K)} :
    faultsOf initial row ≠ [] ↔
      initial = none ∨ (∃ name, initial = some name ∧ name ∉ row.map State.name) ∨
        ∃ s ∈ row, ∃ t ∈ s.transitions, t.target ∉ row.map State.name := by
  rw [faultsOf]
  generalize row.map State.name = names
  have hinitial : initialFaults names initial ≠ [] ↔
      initial = none ∨ ∃ name, initial = some name ∧ name ∉ names := by
    cases initial with
    | none => simp [initialFaults]
    | some name => by_cases h : name ∈ names <;> simp [initialFaults, h]
  have htargets : row.flatMap (targetFaults names) ≠ [] ↔
      ∃ s ∈ row, ∃ t ∈ s.transitions, t.target ∉ names := by
    simp [targetFaults]
  rw [← or_assoc, ← hinitial, ← htargets, ne_eq, List.append_eq_nil_iff,
    Decidable.not_and_iff_not_or_not]

/-- Each of the faults stands for itself alone. -/
theorem faults_of_mem_faultsOf {initial : Option String} {row : List (DraftState C K)}
    {f : BuildError} (h : f ∈ faultsOf initial row) : f.faults = [f] := by
  rcases List.mem_append.1 h with h | h
  · cases initial with
    | none =>
      rw [List.mem_singleton.1 h]
      rfl
    | some name =>
      simp only [initialFaults] at h
      split at h
      · cases h
      · rw [List.mem_singleton.1 h]
        rfl
  · obtain ⟨s, -, hs⟩ := List.mem_flatMap.1 h
    obtain ⟨t, -, rfl⟩ := List.mem_map.1 hs
    rfl

variable {names : List String} {name : String}

/-- A name is not located just if it is not among the names. -/
theorem locate_eq_none_iff : locate names name = none ↔ name ∉ names := by
  rw [locate, List.findFinIdx?_eq_none_iff]
  constructor
  · intro h hmem
    simpa using h name hmem
  · intro h a ha
    simp only [beq_iff_eq]
    exact fun e => h (e ▸ ha)

/-- Where a name is located, there it stands. -/
theorem getElem_of_locate {i : Fin names.length} (h : locate names name = some i) :
    names[i] = name := by
  rw [locate, List.findFinIdx?_eq_some_iff] at h
  exact eq_of_beq h.1

/-- A name that is located is among the names. -/
theorem mem_of_locate {i : Fin names.length} (h : locate names name = some i) : name ∈ names :=
  getElem_of_locate h ▸ List.getElem_mem i.isLt

/-- Checking the choice of the initial state reports what is wrong with it. -/
theorem faults_checkInitial (initial : Option String) :
    (checkInitial names initial).faults = initialFaults names initial := by
  cases initial with
  | none => rfl
  | some name =>
    simp only [checkInitial, initialFaults]
    cases h : locate names name with
    | none => rw [if_neg (locate_eq_none_iff.1 h), Check.faults]
    | some i => rw [if_pos (mem_of_locate h), Check.faults]

/-- The choice of the initial state is refused only with a fault. -/
theorem honest_checkInitial (initial : Option String) : (checkInitial names initial).Honest := by
  cases initial with
  | none => exact nofun
  | some name =>
    simp only [checkInitial]
    cases locate names name with
    | none => exact nofun
    | some i => exact fun _ => ⟨i, rfl⟩

/-- The fault of a transition is that its target is not declared. -/
theorem faults_checkTransition (source : String) (t : Transition C K String) :
    (checkTransition names source t).faults =
      if t.target ∈ names then [] else [.undeclaredTarget source t.target] := by
  unfold checkTransition
  cases h : locate names t.target with
  | none => rw [if_neg (locate_eq_none_iff.1 h), Check.faults]
  | some i => rw [if_pos (mem_of_locate h), Check.faults]

/-- A transition is refused only with a fault. -/
theorem honest_checkTransition (source : String) (t : Transition C K String) :
    (checkTransition names source t).Honest := by
  unfold checkTransition
  cases locate names t.target with
  | none => exact nofun
  | some i => exact fun _ => ⟨_, rfl⟩

/-- Checking a state reports the undeclared targets of its transitions, in their order. -/
theorem faults_checkState (s : DraftState C K) :
    (checkState names s).faults = targetFaults names s := by
  rw [checkState, Check.faults_map, Check.faults_all, targetFaults]
  induction s.transitions with
  | nil => rfl
  | cons t l ih =>
    rw [List.flatMap_cons, ih, faults_checkTransition, List.filter_cons]
    by_cases h : t.target ∈ names <;> simp [h]

/-- A state is refused only with a fault. -/
theorem honest_checkState (s : DraftState C K) : (checkState names s).Honest :=
  (Check.Honest.all (honest_checkTransition s.name) s.transitions).map _

variable (d : Draft C K)

/-- **A draft is checked for exactly these faults,** in this order. -/
theorem faults_check : d.check.faults = faultsOf d.initial d.survivors := by
  rw [check, Check.faults_both, faults_checkInitial, Check.faults_all, faultsOf, names]
  congr 2
  exact funext faults_checkState

/-- A draft is refused only with a fault. -/
theorem honest_check : d.check.Honest :=
  (honest_checkInitial d.initial).both (Check.Honest.all honest_checkState d.survivors)

end Faults

section Build

variable {d : Draft C K}

/-- A failure to build tells the faults. -/
theorem of_build_eq_error {e : BuildError} (h : d.build = .error e) :
    faultsOf d.initial d.survivors ≠ [] ∧ e = .ofFaults (faultsOf d.initial d.survivors) := by
  unfold build at h
  split at h
  · rename_i faults hc
    have hfaults : faults = faultsOf d.initial d.survivors := by
      rw [← faults_check, hc]
      rfl
    cases h
    refine ⟨fun hnil => ?_, congrArg _ hfaults⟩
    rw [← faults_check] at hnil
    obtain ⟨r, hr⟩ := honest_check d hnil
    rw [hc] at hr
    cases hr
  · cases h

/-- What is built has no faults. -/
theorem faultsOf_of_build {m : Machine C K} (h : d.build = .ok m) :
    faultsOf d.initial d.survivors = [] := by
  unfold build at h
  split at h
  · cases h
  · rename_i hc
    rw [← faults_check, hc]
    rfl

/-- **Building fails exactly if there are faults.** -/
theorem build_fails_iff :
    (∃ e, d.build = .error e) ↔ faultsOf d.initial d.survivors ≠ [] := by
  constructor
  · rintro ⟨e, he⟩
    exact (of_build_eq_error he).1
  · intro hne
    cases hb : d.build with
    | error e => exact ⟨e, rfl⟩
    | ok m => exact absurd (faultsOf_of_build hb) hne

/-- The faults that a failure tells. -/
theorem faults_of_build_eq_error {e : BuildError} (h : d.build = .error e) :
    e.faults = faultsOf d.initial d.survivors := by
  rw [(of_build_eq_error h).2]
  exact BuildError.faults_ofFaults fun f hf => faults_of_mem_faultsOf hf

end Build
end Draft
end StateMachine
