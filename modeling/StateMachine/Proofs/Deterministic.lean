/-
# Where a machine has no choice, a search does not return

A machine is deterministic if of two transitions of a state never both are eligible at the same
moment. A direct run is then all that there is to be explored: after a rejection, no choice has
another transition to take. So a search ends with the path and the number of steps of the direct
run, accepts if it does, and never counts a backtrack (`Machine.Deterministic.search_of_run`).
-/

import StateMachine.Proofs.Explore.First
import StateMachine.Proofs.SearchTree.Effort

namespace StateMachine

universe u v w

variable {C : Type u} {K : Type v} {M : Type w}

namespace Machine

/-- Of two transitions of a state, never both are eligible at the same moment. -/
def Deterministic [BEq K] (m : Machine C K) : Prop :=
  ∀ s, (m.state s).transitions.Pairwise fun t u => ∀ c k, t.eligible c k → ¬ u.eligible c k

namespace Deterministic

variable [BEq K] {m : Machine C K} (hm : m.Deterministic) {s : Fin m.count} {c : C} {k : Stack K}

include hm

/-- At most one transition of a state is eligible. -/
theorem eq_of_eligibleAt {i j : Fin (m.state s).transitions.length}
    (hi : m.eligibleAt s c k i) (hj : m.eligibleAt s c k j) : i = j := by
  have hpairwise := List.pairwise_iff_getElem.1 (hm s)
  rcases Nat.lt_trichotomy i.val j.val with hlt | heq | hlt
  · exact absurd hj (hpairwise i j i.isLt j.isLt hlt c k hi)
  · exact Fin.ext heq
  · exact absurd hi (hpairwise j i j.isLt i.isLt hlt c k hj)

/-- At most one transition of a state is eligible at a time. -/
theorem eq_of_eligible {t u : Transition C K (Fin m.count)} (ht : t ∈ (m.state s).transitions)
    (hu : u ∈ (m.state s).transitions) (het : t.eligible c k) (heu : u.eligible c k) : t = u := by
  obtain ⟨i, hi, rfl⟩ := List.mem_iff_getElem.1 ht
  obtain ⟨j, hj, rfl⟩ := List.mem_iff_getElem.1 hu
  have hij : (⟨i, hi⟩ : Fin _) = ⟨j, hj⟩ := hm.eq_of_eligibleAt het heu
  exact congrArg (m.transitionOf s) hij

/-- An eligible transition is the one that a turn fires. -/
theorem exists_fire_of_eligible [Input C] {g : Configuration m}
    (ha : (m.state g.state).action g.context g.stack = (c, .proceed))
    {t : Transition C K (Fin m.count)} (ht : t ∈ (m.state g.state).transitions)
    (he : t.eligible c g.stack) :
    ∃ i, (g.entered c).transition i = t ∧
      Configuration.step {} g = .continue ((g.entered c).fire i) := by
  obtain ⟨i, hi, rfl⟩ := List.mem_iff_getElem.1 ht
  refine ⟨⟨i, hi⟩, rfl, Configuration.step_of_choice (Configuration.turn_of_select ha ?_) rfl⟩
  refine Configuration.select_eq_some_iff.2 ⟨Nat.zero_le _, he, fun j _ hj hej => ?_⟩
  exact Nat.ne_of_lt hj (congrArg Fin.val (hm.eq_of_eligibleAt (j := ⟨i, hi⟩) hej he))

variable [Input C] [Rewind C M]

/-- Trying all transitions is trying the eligible one; none of those after it is eligible. -/
theorem exists_tryEach_eq (visit : Fin m.count → C → Stack K → Path → Option (Finding C)) (h : Path)
    {i : Fin (m.state s).transitions.length} (hi : m.eligibleAt s c k i) :
    ∃ rest, (∀ j ∈ rest, ¬ m.eligibleAt s c k j) ∧
      m.tryEach visit s k h none (List.finRange (m.state s).transitions.length) c =
        m.tryEach visit s k h none (i :: rest) c := by
  obtain ⟨before, rest, hl⟩ := List.append_of_mem (List.mem_finRange i)
  have hnodup : (before ++ i :: rest).Nodup := hl ▸ List.nodup_finRange _
  obtain ⟨-, hrest, hdisjoint⟩ := List.nodup_append.1 hnodup
  refine ⟨rest, fun j hj he => ?_, ?_⟩
  · exact (List.nodup_cons.1 hrest).1 (hm.eq_of_eligibleAt hi he ▸ hj)
  · rw [hl]
    refine tryEach_of_not_eligible (fun j hj he => ?_) _
    exact hdisjoint j hj i List.mem_cons_self (hm.eq_of_eligibleAt he hi)

end Deterministic
end Machine

/-- Exploring finds what a direct run reports, without a backtrack, if the given number of
transitions has been fired before. -/
structure Finding.Agrees (f : Finding C) (fired : Nat) (r : Report C) : Prop where
  outcome : f.outcome = r.outcome
  path : f.path = r.path
  steps : fired + f.steps = r.steps
  backtracks : f.backtracks = 0
  context : r.outcome = .accepted → f.context = r.context

namespace Finding.Agrees

variable {f : Finding C} {fired : Nat} {r : Report C}

/-- What is found after firing a transition is found before, with one more step. -/
theorem count (h : f.Agrees (fired + 1) r) : (f.count none).Agrees fired r where
  outcome := h.outcome
  path := h.path
  steps := (Nat.add_assoc fired 1 f.steps).symm.trans h.steps
  backtracks := (Nat.zero_add _).trans h.backtracks
  context := h.context

/-- Only the context of an acceptance matters. -/
theorem withContext (h : f.Agrees fired r) {reason : String} (hf : f.outcome = .rejected reason)
    (c : C) : Finding.Agrees { f with context := c } fired r where
  outcome := h.outcome
  path := h.path
  steps := h.steps
  backtracks := h.backtracks
  context ho := by
    rw [← h.outcome, hf] at ho
    cases ho

end Finding.Agrees

namespace Machine
namespace Deterministic

variable [Input C] [Rewind C M] [BEq K] {m : Machine C K} (hm : m.Deterministic) (hr : m.Rewinds)

include hm hr

/-- **Exploring a deterministic machine** finds what a direct run reports. -/
theorem exists_explore (turns : Nat) (g : Configuration m) (r : Report C)
    (h : Loop.run (Configuration.step {}) turns g = some r) :
    ∃ f, m.explore turns g.state g.context g.stack g.path = some f ∧
      f.Agrees g.steps r := by
  induction turns generalizing g with
  | zero => cases h
  | succ turns ih =>
    rw [Loop.run_succ] at h
    rw [explore]
    split
    · rename_i c ha
      rw [Configuration.step_of_settled (Configuration.turn_of_accept ha)] at h
      cases h
      exact ⟨_, rfl, rfl, rfl, rfl, rfl, fun _ => rfl⟩
    · rename_i c reason ha
      rw [Configuration.step_of_settled (Configuration.turn_of_reject ha)] at h
      cases h
      exact ⟨_, rfl, rfl, rfl, rfl, rfl, fun _ => rfl⟩
    · rename_i c ha
      cases hi : (g.entered c).select 0 with
      | none =>
        rw [Configuration.step_of_settled (Configuration.turn_of_impasse ha hi)] at h
        cases h
        have hnone : ∀ i, ¬ m.eligibleAt g.state c g.stack i := fun i =>
          Configuration.select_eq_none_iff.1 hi i (Nat.zero_le _)
        rw [tryEach_eq_nil fun i _ => hnone i]
        exact ⟨_, rfl, rfl, rfl, rfl, rfl, fun _ => rfl⟩
      | some i =>
        rw [Configuration.step_of_choice (Configuration.turn_of_select ha hi) rfl] at h
        obtain ⟨f, hf, hagrees⟩ := ih _ h
        have hvisit : m.explore turns (m.transitionOf g.state i).target c
            (g.stack.apply (m.transitionOf g.state i).pop (m.transitionOf g.state i).push)
            (g.path.push (m.moveOf g.state i)) = some f := hf
        have he : m.eligibleAt g.state c g.stack i := (Configuration.select_eq_some_iff.1 hi).2.1
        have hcount : (f.count none).Agrees g.steps r := hagrees.count
        obtain ⟨rest, hrest, heq⟩ := hm.exists_tryEach_eq (m.explore turns) g.path he
        rw [heq, tryEach_cons_of_eligible he, hvisit]
        cases ho : f.outcome with
        | accepted => exact ⟨_, by simp only [ho], hcount⟩
        | rejected reason =>
          -- The context is that after the action again, so none of the rest is eligible.
          have hrewind : Rewind.rewind f.context (Rewind.mark c) = c :=
            hr c f.context (Node.tells_explore hr turns _ _ _ _ _ hvisit).derives
          simp only [ho, hrewind]
          rw [tryEach_eq_nil hrest]
          exact ⟨_, rfl, hcount.withContext ((f.outcome_count none).trans ho) c⟩

/-- **A search of a deterministic machine does not return:** it ends if the direct run does, on the
same path after as many steps, and without a backtrack; it accepts if the direct run does. -/
theorem search_of_run [LawfulBEq K] {c : C} {turns : Nat} {r : Report C}
    (h : m.run {} c turns = some r) :
    ∃ turns' r', m.search {} c turns' = some r' ∧ r'.backtracks = 0 ∧ r'.path = r.path ∧
      r'.steps = r.steps ∧ (r'.outcome = .accepted ↔ r.outcome = .accepted) := by
  obtain ⟨f, hf, hagrees⟩ := hm.exists_explore hr turns _ r h
  obtain ⟨turns', r', hr', hfound⟩ := Search.exists_search_of_explore hf
  have hpath : r'.path = f.path := (congrArg Finding.path hfound).trans f.path_concluded
  have hsteps : r'.steps = f.steps := (congrArg Finding.steps hfound).trans f.steps_concluded
  have hbacktracks : r'.backtracks = f.backtracks :=
    (congrArg Finding.backtracks hfound).trans f.backtracks_concluded
  have houtcome : r'.outcome = f.concluded.outcome := congrArg Finding.outcome hfound
  refine ⟨turns', r', hr', hbacktracks.trans hagrees.backtracks, hpath.trans hagrees.path,
    hsteps.trans ?_, ?_⟩
  · rw [← hagrees.steps]
    exact (Nat.zero_add _).symm
  · rw [houtcome, f.concluded_accepted_iff, hagrees.outcome]

end Deterministic
end Machine
end StateMachine
