/-
# What a rejection costs

A search that rejects has been everywhere: it has fired one transition for each edge of the search
tree. `Node.effort` counts these edges. It is infinite if the tree goes deeper than one looks or if
there is an accepting leaf, at which the search would have stopped before; so a single number tells
whether a search rejects and how many transitions it then fires (`rejects_iff_effort`).

The order in which children are explored has no part in this: `Node.effort` adds up what they cost.
-/

import Mathlib.Data.ENat.Basic
import StateMachine.Proofs.SearchTree.Explore

namespace StateMachine

universe u v w

variable {C : Type u} {K : Type v} {M : Type w}

/-- What a finding has cost: the number of transitions fired before a rejection, and otherwise more
than any number. -/
def Finding.toll : Option (Finding C) → ℕ∞
  | none => ⊤
  | some f =>
    match f.outcome with
    | .accepted => ⊤
    | .rejected _ => f.steps

namespace Finding

variable {f : Finding C} {n : Nat}

/-- An acceptance costs more than any number. -/
theorem toll_of_accepted (h : f.outcome = .accepted) : toll (some f) = ⊤ := by
  rw [toll, h]

/-- A rejection costs the transitions that were fired before it. -/
theorem toll_of_rejected {reason : String} (h : f.outcome = .rejected reason) :
    toll (some f) = f.steps := by
  rw [toll, h]

/-- What has cost a number of transitions is a rejection. -/
theorem exists_of_toll_eq {found : Option (Finding C)} (h : toll found = n) :
    ∃ f reason, found = some f ∧ f.outcome = .rejected reason ∧ f.steps = n := by
  cases found with
  | none => exact absurd h (ENat.top_ne_natCast n)
  | some f =>
    cases ho : f.outcome with
    | accepted =>
      rw [toll_of_accepted ho] at h
      exact absurd h (ENat.top_ne_natCast n)
    | rejected reason =>
      rw [toll_of_rejected ho] at h
      exact ⟨f, reason, rfl, ho, ENat.natCast_inj.1 h⟩

/-- The number of transitions that were fired before a rejection, if there was one. -/
def spent : Option (Finding C) → Nat
  | none => 0
  | some f => f.steps

/-- Counting a transition adds one to the steps, and what was spent on those tried before. -/
theorem steps_count (f : Finding C) (last : Option (Finding C)) :
    (f.count last).steps = spent last + (f.steps + 1) := by
  cases last with
  | none => simp [count, add, spent, Nat.add_comm]
  | some last => simp [count, add, spent]; omega

end Finding

namespace Node

variable {m : Machine C K} [BEq K] {x : Node m} {c : C}

/-- The node to which a transition of the state leads when the action has left the given context. -/
def after (x : Node m) (c : C) (t : Transition C K (Fin m.count)) : Node m :=
  ⟨t.target, c, x.stack.apply t.pop t.push⟩

/-- The nodes to which the transitions lead that are eligible after the action. -/
def children (x : Node m) : List (Node m) :=
  ((m.state x.state).transitions.filter (·.eligible x.entered.1 x.stack)).map
    (x.after x.entered.1)

/-- The children of a node belong to the transitions that are eligible after the action. -/
theorem children_eq {signal : Signal} (hx : x.entered = (c, signal)) :
    x.children =
      ((m.state x.state).transitions.filter (·.eligible c x.stack)).map (x.after c) := by
  rw [children, hx]

/-- The number of edges of the tree below a node, which are fired one after the other before it is
found that nothing accepts there. It is infinite if the tree does not end above the given depth, or
if something does accept. -/
def effort [Input C] : Nat → Node m → ℕ∞
  | 0, _ => ⊤
  | depth + 1, x =>
    match x.outcome? with
    | some .accepted => ⊤
    | some (.rejected _) => 0
    | none => (x.children.map fun y => effort depth y + 1).sum

section TryEach

variable [Rewind C M]

/-- What it costs to try the transitions at the given positions. -/
def costOf (cost : Node m → ℕ∞) (x : Node m) (c : C)
    (l : List (Fin (m.state x.state).transitions.length)) : ℕ∞ :=
  (((l.map (m.transitionOf x.state)).filter (·.eligible c x.stack)).map
    fun t => cost (x.after c t) + 1).sum

variable {cost : Node m → ℕ∞} {i : Fin (m.state x.state).transitions.length}
  {l : List (Fin (m.state x.state).transitions.length)}

/-- An eligible transition costs its own firing and what its target costs. -/
theorem costOf_cons_of_eligible (hi : (m.transitionOf x.state i).eligible c x.stack) :
    costOf cost x c (i :: l) =
      cost (x.after c (m.transitionOf x.state i)) + 1 + costOf cost x c l := by
  simp [costOf, hi]

/-- A transition that is not eligible costs nothing. -/
theorem costOf_cons_of_not_eligible (hi : ¬ (m.transitionOf x.state i).eligible c x.stack) :
    costOf cost x c (i :: l) = costOf cost x c l := by
  simp [costOf, hi]

variable [Input C] (hm : m.Rewinds)
  {visit : Fin m.count → C → Stack K → Path → Option (Finding C)}
  (hvisit : ∀ s c k h, Finding.toll (visit s c k h) = cost ⟨s, c, k⟩)
  (hderives : ∀ s c k h f, visit s c k h = some f → m.Derives c f.context) {h : Path}

include hm hvisit hderives

/-- An eligible transition is tried, and after a rejection the later ones with the same context. -/
theorem toll_tryEach_cons (hi : (m.transitionOf x.state i).eligible c x.stack)
    (hrest : ∀ f reason, f.outcome = .rejected reason →
      Finding.toll (m.tryEach visit x.state x.stack h (some f) l c) =
        f.steps + costOf cost x c l) (last : Option (Finding C)) :
    Finding.toll (m.tryEach visit x.state x.stack h last (i :: l) c) =
      Finding.spent last + costOf cost x c (i :: l) := by
  have htoll : Finding.toll (visit (m.transitionOf x.state i).target c
      (x.stack.apply (m.transitionOf x.state i).pop (m.transitionOf x.state i).push)
      (h.push (m.moveOf x.state i))) = cost (x.after c (m.transitionOf x.state i)) :=
    hvisit _ _ _ _
  rw [Machine.tryEach, if_pos hi, costOf_cons_of_eligible hi, ← htoll]
  cases hv : visit (m.transitionOf x.state i).target c
      (x.stack.apply (m.transitionOf x.state i).pop (m.transitionOf x.state i).push)
      (h.push (m.moveOf x.state i)) with
  | none => simp [Finding.toll]
  | some f =>
    have hcount := f.outcome_count last
    cases ho : f.outcome with
    | accepted =>
      simp only [ho] at hcount ⊢
      rw [Finding.toll_of_accepted hcount, Finding.toll_of_accepted ho, top_add, top_add, add_top]
    | rejected reason =>
      simp only [ho] at hcount ⊢
      rw [hm c f.context (hderives _ _ _ _ _ hv), hrest _ reason hcount, f.steps_count last,
        Finding.toll_of_rejected ho, Nat.cast_add, Nat.cast_add, Nat.cast_one, add_assoc]

/-- **Once a transition has led to a rejection,** each eligible one that is left adds its cost. -/
theorem toll_tryEach_some {f : Finding C} {reason : String} (hf : f.outcome = .rejected reason) :
    Finding.toll (m.tryEach visit x.state x.stack h (some f) l c) =
      f.steps + costOf cost x c l := by
  induction l generalizing f reason with
  | nil => simp [Machine.tryEach, costOf, Finding.toll, hf]
  | cons i l ih =>
    by_cases hi : (m.transitionOf x.state i).eligible c x.stack
    · exact toll_tryEach_cons hm hvisit hderives hi (fun _ _ => ih) (some f)
    · rw [Machine.tryEach, if_neg hi, costOf_cons_of_not_eligible hi]
      exact ih hf

/-- **If there is an eligible transition,** trying them costs what they cost together. -/
theorem toll_tryEach_none (hany : (l.map (m.transitionOf x.state)).any (·.eligible c x.stack)) :
    Finding.toll (m.tryEach visit x.state x.stack h none l c) = costOf cost x c l := by
  induction l with
  | nil => cases hany
  | cons i l ih =>
    by_cases hi : (m.transitionOf x.state i).eligible c x.stack
    · have hcons := toll_tryEach_cons hm hvisit hderives hi (h := h) (l := l)
        (fun _ _ => toll_tryEach_some hm hvisit hderives) none
      rw [hcons, Finding.spent, Nat.cast_zero, zero_add]
    · rw [List.map_cons, List.any_cons, Bool.or_eq_true] at hany
      rw [Machine.tryEach, if_neg hi, costOf_cons_of_not_eligible hi]
      exact ih (hany.resolve_left hi)

omit hm hvisit hderives in
/-- Without any, the decision at the impasse stands. -/
theorem tryEach_eq_decide
    (hnone : ¬ (l.map (m.transitionOf x.state)).any (·.eligible c x.stack)) :
    m.tryEach visit x.state x.stack h none l c =
      some ⟨(m.decide x.state c x.stack).2, (m.decide x.state c x.stack).1, h, 0, 0⟩ := by
  induction l with
  | nil => rfl
  | cons i l ih =>
    rw [List.map_cons, List.any_cons, Bool.or_eq_true, not_or] at hnone
    rw [Machine.tryEach, if_neg hnone.1]
    exact ih hnone.2

end TryEach

section Explore

variable [Input C] [Rewind C M] (hm : m.Rewinds)

include hm

/-- **Exploring a state costs what its tree says,** whatever path has led there. -/
theorem toll_explore (depth : Nat) (s : Fin m.count) (c : C) (k : Stack K) (h : Path) :
    Finding.toll (m.explore depth s c k h) = effort depth ⟨s, c, k⟩ := by
  induction depth generalizing s c k h with
  | zero => rfl
  | succ depth ih =>
    let x : Node m := ⟨s, c, k⟩
    rw [Machine.explore, effort]
    split
    · rename_i c' ha
      rw [outcome?_of_accept (x := x) ha]
      rfl
    · rename_i c' reason ha
      rw [outcome?_of_reject (x := x) ha]
      rfl
    · rename_i c' ha
      have hx : x.entered = (c', .proceed) := ha
      -- What is explored below derives its context, so each transition is tried on `c'` again.
      have hderives : ∀ s c k h f, m.explore depth s c k h = some f → m.Derives c f.context :=
        fun s c k h f hf => (tells_explore hm depth s c k h f hf).derives
      have hlist : (List.finRange (m.state s).transitions.length).map (m.transitionOf s) =
          (m.state s).transitions := List.map_getElem_finRange _
      -- Without an eligible transition the node is a leaf, with the decision as its outcome.
      by_cases hany : (m.state s).transitions.any (·.eligible c' k)
      · have houtcome : x.outcome? = none := by
          rw [outcome?, hx]
          exact if_pos hany
        rw [houtcome, toll_tryEach_none (x := x) hm ih hderives (hlist.symm ▸ hany), costOf, hlist,
          children_eq hx, List.map_map]
        rfl
      · have houtcome : x.outcome? = some (m.decide s c' k).2 := by
          rw [outcome?, hx]
          exact if_neg hany
        rw [houtcome, tryEach_eq_decide (x := x) (hlist.symm ▸ hany), Finding.toll]
        cases (m.decide s c' k).2 <;> rfl

end Explore
end Node

/-- **A search rejects just if the search tree is finite and accepts nowhere,** and it has fired as
many transitions as the tree has edges. -/
theorem rejects_iff_effort [Input C] [Rewind C M] [BEq K] [LawfulBEq K] {m : Machine C K}
    (hm : m.Rewinds) {c : C} {n : Nat} :
    (∃ turns r reason, m.search {} c turns = some r ∧ r.outcome = .rejected reason ∧
        r.steps = n) ↔
      ∃ depth, (Node.root m c).effort depth = n := by
  constructor
  · rintro ⟨turns, r, reason, hr, ho, rfl⟩
    obtain ⟨depth, e, he, hfound⟩ := Search.exists_explore_of_search hr
    have houtcome : r.outcome = e.concluded.outcome := congrArg Finding.outcome hfound
    have hsteps : r.steps = e.steps := (congrArg Finding.steps hfound).trans e.steps_concluded
    obtain ⟨reason', ho'⟩ := Finding.outcome_of_concluded_rejected (houtcome.symm.trans ho)
    have htoll := Node.toll_explore hm depth m.initial c .empty (.nil (m.stateName m.initial))
    rw [he, Finding.toll_of_rejected ho', ← hsteps] at htoll
    exact ⟨depth, htoll.symm⟩
  · rintro ⟨depth, heffort⟩
    have htoll := Node.toll_explore hm depth m.initial c .empty (.nil (m.stateName m.initial))
    obtain ⟨e, reason, he, ho, rfl⟩ := Finding.exists_of_toll_eq (htoll.trans heffort)
    obtain ⟨turns, r, hr, hfound⟩ := Search.exists_search_of_explore he
    obtain ⟨reason', ho'⟩ := Finding.outcome_concluded_of_rejected ho
    exact ⟨turns, r, reason', hr, (congrArg Finding.outcome hfound).trans ho',
      (congrArg Finding.steps hfound).trans e.steps_concluded⟩

/-- A search that ends and has not rejected has accepted. -/
theorem accepted_iff_effort [Input C] [Rewind C M] [BEq K] [LawfulBEq K] {m : Machine C K}
    (hm : m.Rewinds) {c : C} {turns : Nat} {r : Report C} (hr : m.search {} c turns = some r) :
    r.outcome = .accepted ↔ ∀ depth (n : Nat), (Node.root m c).effort depth ≠ n := by
  constructor
  · intro ho depth n hn
    obtain ⟨turns', r', reason, hr', ho', -⟩ := (rejects_iff_effort hm).2 ⟨depth, hn⟩
    obtain rfl := Loop.run_unique hr hr'
    rw [ho] at ho'
    cases ho'
  · intro heffort
    cases ho : r.outcome with
    | accepted => rfl
    | rejected reason =>
      obtain ⟨depth, hdepth⟩ := (rejects_iff_effort hm).1 ⟨turns, r, reason, hr, ho, rfl⟩
      exact absurd hdepth (heffort depth r.steps)

end StateMachine
