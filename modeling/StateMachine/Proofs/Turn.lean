/-
# Turns, firings and returns, one equation each

What a turn of a run comes to is decided by the signal of the action and by the first eligible
transition (`Configuration.turn_of_accept` and its siblings). The search for a transition goes
through the list of positions (`Configuration.select_eq_find?`). After a rejection a search takes
its choices up one after the other; `Search.retry` is the part of this that concerns one choice.
-/

import StateMachine.Run.Direct
import StateMachine.Search.Basic

namespace StateMachine

universe u v w

variable {C : Type u} {K : Type v} {M : Type w}

/-- The search for a position from `low` on passes over those before. -/
theorem find?_finRange_le (n low : Nat) (p : Fin n → Bool) :
    (List.finRange n).find? (fun i => decide (low ≤ i.val) && p i) =
      ((List.finRange n).drop low).find? p := by
  have htake : ((List.finRange n).take low).find? (fun i => decide (low ≤ i.val) && p i) =
      none := by
    refine List.find?_eq_none.2 fun i hi => ?_
    obtain ⟨j, hj, rfl⟩ := List.mem_take_iff_getElem.1 hi
    simp only [List.getElem_finRange, Fin.val_cast, Bool.and_eq_true, decide_eq_true_eq]
    omega
  have hdrop : ((List.finRange n).drop low).find? (fun i => decide (low ≤ i.val) && p i) =
      ((List.finRange n).drop low).find? p := by
    rw [← List.head?_filter, ← List.head?_filter]
    refine congrArg List.head? (List.filter_congr fun i hi => ?_)
    obtain ⟨j, hj, rfl⟩ := List.mem_drop_iff_getElem.1 hi
    simp
  conv => lhs; rw [← List.take_append_drop low (List.finRange n)]
  rw [List.find?_append, htake, Option.none_or, hdrop]

/-- Of the positions from `low` on, the first is `low`. -/
theorem val_of_drop_finRange {n low : Nat} {i : Fin n} {l : List (Fin n)}
    (h : (List.finRange n).drop low = i :: l) :
    i.val = low ∧ (List.finRange n).drop (low + 1) = l := by
  have hlow : low < (List.finRange n).length := by
    refine Nat.lt_of_not_le fun hle => ?_
    rw [List.drop_eq_nil_of_le hle] at h
    cases h
  rw [List.drop_eq_getElem_cons hlow, List.cons.injEq] at h
  exact ⟨by rw [← h.1]; simp, h.2⟩

namespace Configuration

variable {m : Machine C K}

/-- The configuration in which the current state has been entered and its action has left the given
context. -/
def entered (g : Configuration m) (c : C) : Configuration m :=
  { g.notify (.entered g.stateName) with context := c }

/-- Entering a state does what its action says. -/
theorem enter_eq {g : Configuration m} {c : C} {signal : Signal}
    (h : (m.state g.state).action g.context g.stack = (c, signal)) :
    g.enter = (g.entered c, signal) := by
  simp only [enter]
  exact congrArg (fun r : C × Signal => (g.entered r.1, r.2)) h

section Turn

variable [Input C] [BEq K] {g : Configuration m} {c : C}

/-- If the action accepts, so does the turn. -/
theorem turn_of_accept (h : (m.state g.state).action g.context g.stack = (c, .accept)) :
    g.turn = .settled (g.entered c) .accepted := by
  rw [turn, enter_eq h]

/-- If the action rejects, so does the turn, for the same reason. -/
theorem turn_of_reject {reason : String}
    (h : (m.state g.state).action g.context g.stack = (c, .reject reason)) :
    g.turn = .settled (g.entered c) (.rejected reason) := by
  rw [turn, enter_eq h]

/-- If the action lets the run go on, the turn comes to the first eligible transition. -/
theorem turn_of_select {i : Fin (g.entered c).transitions.length}
    (h : (m.state g.state).action g.context g.stack = (c, .proceed))
    (hi : (g.entered c).select 0 = some i) : g.turn = .choice (g.entered c) i := by
  rw [turn, enter_eq h]
  simp only [hi]

/-- If no transition is eligible, the turn comes to the decision at the impasse. -/
theorem turn_of_impasse (h : (m.state g.state).action g.context g.stack = (c, .proceed))
    (hi : (g.entered c).select 0 = none) :
    g.turn = .settled (g.entered c).decide.1 (g.entered c).decide.2 := by
  rw [turn, enter_eq h]
  simp only [hi]

variable {e : Configuration m}

/-- A transition that a turn comes to is the first eligible one after the action. -/
theorem of_turn_eq_choice {i : Fin e.transitions.length} (h : g.turn = .choice e i) :
    e = g.enter.1 ∧ e.select 0 = some i := by
  unfold turn at h
  split at h
  · cases h
  · cases h
  · rename_i e' he
    split at h
    · rename_i i' hi
      cases h
      exact ⟨(congrArg Prod.fst he).symm, hi⟩
    · cases h

/-- A turn settles the outcome when the state has been entered, or by the decision at an impasse. -/
theorem of_turn_eq_settled {o : Outcome} (h : g.turn = .settled e o) :
    e = g.enter.1 ∨ e = g.enter.1.decide.1 := by
  unfold turn at h
  split at h <;> rename_i e' he
  · cases h
    rw [he]
    exact .inl rfl
  · cases h
    rw [he]
    exact .inl rfl
  · split at h
    · cases h
    · cases h
      rw [he]
      exact .inr rfl

variable {limits : Limits}

/-- A direct run finishes with the outcome that its turn has settled. -/
theorem step_of_settled {o : Outcome} (h : g.turn = .settled e o) :
    step limits g = .finish (e.finish o 0) := by
  rw [step, h]

/-- A direct run finishes when a transition is due that the limit does not allow. -/
theorem step_of_exceeded {i : Fin e.transitions.length} (h : g.turn = .choice e i) {o : Outcome}
    (ho : limits.exceeded e.steps = some o) : step limits g = .finish (e.finish o 0) := by
  rw [step, h]
  simp only [ho]

/-- A direct run fires the transition that its turn has come to, if the limit allows it. -/
theorem step_of_choice {i : Fin e.transitions.length} (h : g.turn = .choice e i)
    (he : limits.exceeded e.steps = none) : step limits g = .continue (e.fire i) := by
  rw [step, h]
  simp only [he]

/-- A turn of a direct run that goes on has fired the first transition eligible after the action,
which the limit allowed. -/
theorem exists_choice_of_step {g' : Configuration m} (h : step limits g = .continue g') :
    ∃ e i, g.turn = .choice e i ∧ limits.exceeded e.steps = none ∧ g' = e.fire i := by
  unfold step at h
  split at h
  · cases h
  · rename_i e i ht
    split at h
    · cases h
    · rename_i he
      cases h
      exact ⟨e, i, ht, he, rfl⟩

/-- A direct run ends where the outcome is settled or the limit does not allow a transition. -/
theorem of_step_eq_finish {r : Report C} (h : step limits g = .finish r) :
    (∃ e o, g.turn = .settled e o ∧ r = e.finish o 0) ∨
      ∃ e i o, g.turn = .choice e i ∧ limits.exceeded e.steps = some o ∧ r = e.finish o 0 := by
  unfold step at h
  split at h
  · rename_i e o ht
    cases h
    exact .inl ⟨e, o, ht, rfl⟩
  · rename_i e i ht
    split at h
    · rename_i o ho
      cases h
      exact .inr ⟨e, i, o, ht, ho, rfl⟩
    · cases h

end Turn

/-- What is selected is the first eligible one of the transitions from the given one on. -/
theorem select_eq_find? [BEq K] (g : Configuration m) (low : Nat) :
    g.select low = ((List.finRange g.transitions.length).drop low).find? g.eligible :=
  find?_finRange_le _ _ _

end Configuration

namespace Search

variable [Rewind C M] {m : Machine C K}

/-- A transition is fired unless the limit on steps forbids it. -/
theorem fire_of_exceeded {limits : Limits} {g : Configuration m}
    (h : limits.exceeded g.steps = none) (i : Fin g.transitions.length)
    (trail : Trail (Fin m.count) M K) (backtracks : Nat) :
    fire limits g i trail backtracks =
      .continue { config := g.fire i, trail := trail.push (choiceOf g i), backtracks } := by
  rw [fire, h]

variable [BEq K]

/-- What a search does with an outcome that has been settled: a rejection makes it return. -/
def settle (limits : Limits) (trail : Trail (Fin m.count) M K) (backtracks : Nat)
    (g : Configuration m) : Outcome → Progress (Search m M) (Report C)
  | .accepted => .finish (g.finish .accepted backtracks)
  | .rejected reason => resume limits reason trail backtracks trail.choices g

/-- Fires the first of the given transitions that is eligible in `g`, a configuration whose state
has just been entered; without one, the decision at the impasse settles the outcome. -/
def choose [Input C] (limits : Limits) (trail : Trail (Fin m.count) M K) (backtracks : Nat)
    (g : Configuration m) (l : List (Fin g.transitions.length)) :
    Progress (Search m M) (Report C) :=
  match l.find? g.eligible with
  | none => settle limits trail backtracks g.decide.1 g.decide.2
  | some i => fire limits g i trail backtracks

/-- Fires the first of the given transitions that is eligible in `g`, a configuration to which a
search has returned; without one, the search goes on with the remaining choices. -/
def retry (limits : Limits) (reason : String) (trail : Trail (Fin m.count) M K) (backtracks : Nat)
    (rest : List (Choice (Fin m.count) M K)) (depth : Nat) (g : Configuration m)
    (l : List (Fin g.transitions.length)) : Progress (Search m M) (Report C) :=
  match l.find? g.eligible with
  | none => resume limits reason trail backtracks rest g
  | some i =>
    let g' : Configuration m := { g with path := g.path.truncate depth }
    fire limits (g'.notify (.returned g'.stateName)) i { trail with choices := rest }
      (backtracks + 1)

section Cons

variable {limits : Limits} {reason : String} {trail : Trail (Fin m.count) M K} {backtracks : Nat}
  {rest : List (Choice (Fin m.count) M K)} {depth : Nat} {g : Configuration m}
  {i : Fin g.transitions.length} {l : List (Fin g.transitions.length)}

/-- The first transition is fired if it is eligible. -/
theorem choose_cons_of_eligible [Input C] (h : g.eligible i) :
    choose limits trail backtracks g (i :: l) = fire limits g i trail backtracks := by
  rw [choose, List.find?_cons_of_pos h]

/-- A transition that is not eligible is passed over. -/
theorem choose_cons_of_not_eligible [Input C] (h : ¬ g.eligible i) :
    choose limits trail backtracks g (i :: l) = choose limits trail backtracks g l := by
  rw [choose, choose, List.find?_cons_of_neg h]

/-- The first of the untried transitions is fired if it is eligible; only then is the path cut. -/
theorem retry_cons_of_eligible (h : g.eligible i) {p : Path} (hp : g.path.truncate depth = p) :
    retry limits reason trail backtracks rest depth g (i :: l) =
      fire limits ({ g with path := p }.notify (.returned g.stateName)) i
        { trail with choices := rest } (backtracks + 1) := by
  subst hp
  rw [retry, List.find?_cons_of_pos h]
  rfl

/-- An untried transition that is not eligible is passed over. -/
theorem retry_cons_of_not_eligible (h : ¬ g.eligible i) :
    retry limits reason trail backtracks rest depth g (i :: l) =
      retry limits reason trail backtracks rest depth g l := by
  rw [retry, retry, List.find?_cons_of_neg h]

end Cons

/-- Returning to the latest choice puts everything back, and tries the transitions after the one it
has taken. -/
theorem resume_cons (limits : Limits) (reason : String) (trail : Trail (Fin m.count) M K)
    (backtracks : Nat) (c : Choice (Fin m.count) M K) (rest : List (Choice (Fin m.count) M K))
    (g : Configuration m) :
    resume limits reason trail backtracks (c :: rest) g =
      retry limits reason trail backtracks rest c.depth (restore g c)
        ((List.finRange (restore g c).transitions.length).drop (c.taken + 1)) := by
  unfold retry
  rw [← Configuration.select_eq_find?]
  rfl

section Step

variable [Input C] {limits : Limits} {s : Search m M} {c : C}

/-- If the action accepts, the search settles on it. -/
theorem step_of_accept
    (h : (m.state s.config.state).action s.config.context s.config.stack = (c, .accept)) :
    step limits s = settle limits s.trail s.backtracks (s.config.entered c) .accepted := by
  rw [step, Configuration.turn_of_accept h]
  rfl

/-- If the action rejects, the search returns to its choices. -/
theorem step_of_reject {reason : String}
    (h : (m.state s.config.state).action s.config.context s.config.stack = (c, .reject reason)) :
    step limits s =
      settle limits s.trail s.backtracks (s.config.entered c) (.rejected reason) := by
  rw [step, Configuration.turn_of_reject h]
  rfl

/-- If the action lets the search go on, it chooses among all transitions of the state. -/
theorem step_of_proceed
    (h : (m.state s.config.state).action s.config.context s.config.stack = (c, .proceed)) :
    step limits s = choose limits s.trail s.backtracks (s.config.entered c)
      (List.finRange (s.config.entered c).transitions.length) := by
  have hs := (s.config.entered c).select_eq_find? 0
  rw [List.drop_zero] at hs
  rw [choose, ← hs, step]
  cases hi : (s.config.entered c).select 0 with
  | none =>
    rw [Configuration.turn_of_impasse h hi]
    cases ho : (s.config.entered c).decide.2 <;> rfl
  | some i => rw [Configuration.turn_of_select h hi]

end Step
end Search
end StateMachine
