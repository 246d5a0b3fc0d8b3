/-
# Building validates exactly and resolves every name

A machine that was built has the states of the draft's row, and each target of a transition is the
position of the state of that name (`Draft.realizes_of_build`). Together with the faults that are
told otherwise, this is what building comes to. `build_resolves` states it for whatever was
declared: the row is then the one that survives the declarations
(`Draft.survivors_ofDeclarations`).
-/

import StateMachine.Proofs.Draft.Faults
import StateMachine.Proofs.Draft.Survivors

namespace StateMachine

universe u v w x

variable {C : Type u} {K : Type v} {σ : Type w}

/-- The same state with its transitions' targets given in another way. -/
def State.retarget {τ : Type x} (f : σ → τ) (s : State C K σ) : State C K τ where
  name := s.name
  accepting := s.accepting
  action := s.action
  onImpasse := s.onImpasse
  transitions := s.transitions.map fun t => t.withTarget (f t.target)

namespace Draft

section Resolved

variable {names : List String}

/-- A choice of the initial state that passes the check has the name of the state it is resolved to.
-/
theorem of_checkInitial_eq_ok {initial : Option String} {i : Fin names.length}
    (h : checkInitial names initial = .ok i) : initial = some (names.get i) := by
  cases initial with
  | none => cases h
  | some name =>
    simp only [checkInitial] at h
    cases hl : locate names name with
    | none => rw [hl] at h; cases h
    | some j =>
      rw [hl] at h
      cases h
      exact congrArg some (getElem_of_locate hl).symm

/-- A resolved transition is the declared one, and the number of its target is the position of the
target's name. -/
theorem of_checkTransition_eq_ok (hn : names.Nodup) {source : String} {t : Transition C K String}
    {r : Transition C K (Fin names.length)} (h : checkTransition names source t = .ok r) :
    r.withTarget names[r.target] = t ∧ r.target.val = names.idxOf t.target := by
  unfold checkTransition at h
  cases hl : locate names t.target with
  | none => rw [hl] at h; cases h
  | some i =>
    rw [hl] at h
    cases h
    have hname : names[i] = t.target := getElem_of_locate hl
    refine ⟨?_, ?_⟩
    · obtain ⟨target, guard, pop, push, label⟩ := t
      simp only [Transition.withTarget] at hname ⊢
      rw [hname]
    · rw [← hname]
      exact (hn.idxOf_getElem i.val i.isLt).symm

/-- A resolved state is the declared one, and its targets are the positions of their names. -/
theorem of_checkState_eq_ok (hn : names.Nodup) {s : DraftState C K}
    {r : State C K (Fin names.length)} (h : checkState names s = .ok r) :
    r.retarget names.get = s ∧
      r.transitions.map (fun t => t.target.val) =
        s.transitions.map fun t => names.idxOf t.target := by
  unfold checkState at h
  cases hc : Check.all (checkTransition names s.name) s.transitions with
  | error e => simp [hc, Except.map] at h
  | ok l =>
    simp only [hc, Except.map, Except.ok.injEq] at h
    subst h
    have hback : l.map (fun t => t.withTarget names[t.target]) = s.transitions.map id :=
      Check.map_eq_of_all (fun t r hr => (of_checkTransition_eq_ok hn hr).1) hc
    have hnumber : l.map (fun t => t.target.val) =
        s.transitions.map fun t => names.idxOf t.target :=
      Check.map_eq_of_all (fun t r hr => (of_checkTransition_eq_ok hn hr).2) hc
    rw [List.map_id] at hback
    obtain ⟨name, accepting, action, onImpasse, transitions⟩ := s
    exact ⟨congrArg (State.mk name accepting action onImpasse) hback, hnumber⟩

end Resolved
end Draft

/-- The name of a state stands at its position. -/
theorem Machine.idxOf_stateName (m : Machine C K) (i : Fin m.count) :
    (m.states.toList.map State.name).idxOf (m.stateName i) = i.val := by
  have hi : i.val < (m.states.toList.map State.name).length := by simp
  have hname : (m.states.toList.map State.name)[i.val] = m.stateName i := by
    simp [stateName, state]
  rw [← hname]
  exact m.names_nodup.idxOf_getElem i.val hi

/-- The machine has the states of the row, in order: each is the declared one, and the numbers of
its targets are the positions of the states that were named. The initial state is the one of the
given name. -/
structure Machine.Realizes (m : Machine C K) (row : List (DraftState C K)) (initial : String) :
    Prop where
  states : m.states.toList.map (State.retarget m.stateName) = row
  targets : m.states.toList.map (fun s => s.transitions.map fun t => t.target.val) =
    row.map fun s => s.transitions.map fun t => (row.map State.name).idxOf t.target
  initial : m.stateName m.initial = initial

namespace Machine.Realizes

variable {m : Machine C K} {row : List (DraftState C K)} {initial : String}
  (h : m.Realizes row initial)

include h

/-- The row has one state for each state of the machine. -/
theorem length_row : row.length = m.count := by
  rw [← h.states]
  simp

/-- The state at a position of the row is that of the machine. -/
theorem getElem_row {k : Nat} (hk : k < row.length) :
    row[k] = (m.state ⟨k, h.length_row ▸ hk⟩).retarget m.stateName := by
  have hstates := h.states
  subst hstates
  simp [Machine.state]

/-- The row and the machine have the same names in the same order. -/
theorem names : row.map State.name = m.states.toList.map State.name := by
  rw [← h.states, List.map_map]
  rfl

/-- **A state is found by its name, and by no other.** -/
theorem find?_eq (name : String) :
    (m.find? name).map (fun i => (m.state i).retarget m.stateName) =
      row.find? fun s => s.name == name := by
  symm
  cases hf : m.find? name with
  | none =>
    have hnone := Machine.find?_eq_none_iff.1 hf
    simp only [Option.map_none, List.find?_eq_none, beq_iff_eq]
    intro s hs
    obtain ⟨k, hk, rfl⟩ := List.mem_iff_getElem.1 hs
    rw [h.getElem_row hk]
    exact hnone _
  | some i =>
    have hname := Machine.find?_eq_some_iff.1 hf
    have hi : i.val < row.length := by rw [h.length_row]; exact i.isLt
    simp only [Option.map_some, List.find?_eq_some_iff_getElem, Bool.not_eq_true',
      beq_eq_false_iff_ne]
    refine ⟨beq_iff_eq.2 hname, i, hi, h.getElem_row hi, fun j hj hsame => ?_⟩
    -- Another state of this name would stand at the same position.
    rw [h.getElem_row (Nat.lt_trans hj hi)] at hsame
    have hsame' : m.stateName ⟨j, _⟩ = name := hsame
    have heq := m.stateName_injective (hsame'.trans hname.symm)
    exact Nat.ne_of_lt hj (congrArg Fin.val heq)

end Machine.Realizes

namespace Draft

/-- The states of what is built are named as those that survive. -/
theorem stateName_of_build {d : Draft C K} {m : Machine C K} (h : d.build = .ok m) {k : Nat}
    (hk : k < m.count) (hk' : k < d.names.length) : m.stateName ⟨k, hk⟩ = d.names[k] := by
  unfold build at h
  split at h
  · cases h
  · rename_i initial states hc
    cases h
    rw [List.getElem_of_eq (names_of_check hc).symm hk']
    simp [Machine.stateName, Machine.state]

/-- A machine that was built has the name and the policy of the draft. -/
theorem name_policy_of_build {d : Draft C K} {m : Machine C K} (h : d.build = .ok m) :
    m.name = d.name.getD "machine" ∧ m.policy = d.policy := by
  unfold build at h
  split at h
  · cases h
  · cases h
    exact ⟨rfl, rfl⟩

/-- **What is built has the states of the row and resolves every name.** -/
theorem realizes_of_build {d : Draft C K} {m : Machine C K} (h : d.build = .ok m) :
    ∃ initial, d.initial = some initial ∧ m.Realizes d.survivors initial := by
  have hname : ∀ k (hk : k < m.count) (hk' : k < d.names.length),
      m.stateName ⟨k, hk⟩ = d.names[k] := fun k hk hk' => stateName_of_build h hk hk'
  unfold build at h
  split at h
  · cases h
  · rename_i initial states hc
    cases h
    have hstateName : Machine.stateName _ = fun i : Fin d.names.length => d.names[i] :=
      funext fun i => hname i.val i.isLt i.isLt
    obtain ⟨hi, hs⟩ := Check.both_eq_ok hc
    have hback : states.map (State.retarget fun i => d.names[i]) = d.survivors.map id :=
      Check.map_eq_of_all (fun s r hr => (of_checkState_eq_ok d.nodup_names hr).1) hs
    have hnumbers := Check.map_eq_of_all
      (fun s r hr => (of_checkState_eq_ok d.nodup_names hr).2) hs
    rw [List.map_id] at hback
    refine ⟨_, of_checkInitial_eq_ok hi, ?_, hnumbers, congrFun hstateName initial⟩
    rw [hstateName]
    exact hback

end Draft

/-- **Building validates exactly and resolves every name.** Whatever is declared, let the row be the
states that survive.

* Building fails if and only if no initial state was chosen, or the one chosen last is not in the
  row, or a transition of a state in the row has a target that is not.
* The faults that a failure tells are these, in order: that of the initial state, and then one for
  each such transition. A single one stands alone, and several are reported together.
* What is built has the states of the row, in order and with distinct names. A state is found by its
  name and by no other, the initial state is the one that was chosen, and the number of each target
  is the position of the state of that name. -/
theorem build_resolves (l : List (Declaration C K)) :
    ((∃ e, (Draft.ofDeclarations l).build = .error e) ↔
      Draft.initialOf l = none ∨
      (∃ name, Draft.initialOf l = some name ∧ name ∉ (Draft.rowOf l).map State.name) ∨
      ∃ s ∈ Draft.rowOf l, ∃ t ∈ s.transitions, t.target ∉ (Draft.rowOf l).map State.name) ∧
    (∀ e, (Draft.ofDeclarations l).build = .error e →
      e.faults = Draft.faultsOf (Draft.initialOf l) (Draft.rowOf l) ∧
      (∀ f, e.faults = [f] → e = f) ∧ (2 ≤ e.faults.length → e = .multiple e.faults)) ∧
    ∀ m, (Draft.ofDeclarations l).build = .ok m →
      m.states.toList.map (State.retarget m.stateName) = Draft.rowOf l ∧
      ((Draft.rowOf l).map State.name).Nodup ∧
      (∀ name, (m.find? name).map (fun i => (m.state i).retarget m.stateName) =
        (Draft.rowOf l).find? fun s => s.name == name) ∧
      Draft.initialOf l = some (m.stateName m.initial) ∧
      m.states.toList.map (fun s => s.transitions.map fun t => t.target.val) =
        (Draft.rowOf l).map fun s => s.transitions.map fun t =>
          ((Draft.rowOf l).map State.name).idxOf t.target := by
  rw [← Draft.survivors_ofDeclarations, ← Draft.initial_ofDeclarations]
  generalize Draft.ofDeclarations l = d
  refine ⟨?_, ?_, ?_⟩
  · rw [Draft.build_fails_iff, Draft.faultsOf_ne_nil_iff]
  · intro e he
    obtain ⟨-, rfl⟩ := Draft.of_build_eq_error he
    rw [BuildError.faults_ofFaults fun f hf => Draft.faults_of_mem_faultsOf hf]
    refine ⟨rfl, fun f hf => ?_, fun htwo => BuildError.ofFaults_of_two_le htwo⟩
    rw [hf]
    rfl
  · intro m hm
    obtain ⟨initial, hi, hrealizes⟩ := Draft.realizes_of_build hm
    refine ⟨hrealizes.states, d.nodup_names, hrealizes.find?_eq, ?_, hrealizes.targets⟩
    rw [hi, hrealizes.initial]

namespace Draft

/-- Two states that lead to others which are not declared. -/
def dangling : List (Declaration Unit Nat) :=
  [.state ((State.named "a").transition (.towards "x") |>.transition (.towards "a")),
    .state ((State.named "b").transition (.towards "y"))]

/-- The same two states, declared again after an initial state that does not exist was chosen. -/
def mended : List (Declaration Unit Nat) :=
  dangling ++
    [.initial "x", .state ((State.named "b").transition (.towards "a")), .initial "b",
      .state ((State.named "a").transition (.towards "b") |>.transition (.towards "a"))]

/-- Without an initial state and with two dangling targets there are three faults. When the states
are declared again, each takes its former place, and the targets are found. -/
theorem mended_resolves :
    (∃ e, (ofDeclarations dangling).build = .error e ∧
      e.faults = [.missingInitial, .undeclaredTarget "a" "x", .undeclaredTarget "b" "y"] ∧
      e = .multiple e.faults) ∧
    ∃ m, (ofDeclarations mended).build = .ok m ∧ m.stateName m.initial = "b" ∧
      m.states.toList.map State.name = ["a", "b"] ∧
      m.states.toList.map (fun s => s.transitions.map fun t => t.target.val) = [[1, 0], [0]] := by
  refine ⟨?_, ?_⟩
  · obtain ⟨hfails, hfaults, -⟩ := build_resolves dangling
    obtain ⟨e, he⟩ := hfails.2 (.inl rfl)
    obtain ⟨hlist, -, hmultiple⟩ := hfaults e he
    have hthree : e.faults =
        [.missingInitial, .undeclaredTarget "a" "x", .undeclaredTarget "b" "y"] :=
      hlist.trans rfl
    exact ⟨e, he, hthree, hmultiple (by rw [hthree]; decide)⟩
  · have hbuild : ∃ m, (ofDeclarations mended).build = .ok m := ⟨_, rfl⟩
    obtain ⟨m, hm⟩ := hbuild
    obtain ⟨-, -, hmachine⟩ := build_resolves mended
    obtain ⟨hstates, -, -, hinitial, htargets⟩ := hmachine m hm
    have hnames := congrArg (List.map State.name) hstates
    rw [List.map_map] at hnames
    exact ⟨m, hm, (Option.some.inj hinitial).symm, hnames, htargets⟩

end Draft
end StateMachine
