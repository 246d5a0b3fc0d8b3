/-
# The first way that accepts

The path on which an exploration accepts, if it does, is the first one among those that are found
below its eligible transitions, in their order (`Machine.exploresTo_of_eligible`). With contexts
that can be rewound each of them is explored as if it were the only one, so that what is found from
a moment on can be told from what is found from the moments after it.
-/

import StateMachine.Proofs.SearchTree.Explore

namespace StateMachine

universe u v w

variable {C : Type u} {K : Type v} {M : Type w}

/-- The path on which an acceptance has been found. -/
def Finding.way? (f : Finding C) : Option Path :=
  match f.outcome with
  | .accepted => some f.path
  | .rejected _ => none

namespace Finding

/-- The way of an accepting finding is its path. -/
theorem way?_of_accepted {f : Finding C} (h : f.outcome = .accepted) : f.way? = some f.path := by
  rw [way?, h]

/-- There is no way in a rejecting finding. -/
theorem way?_of_rejected {f : Finding C} {reason : String} (h : f.outcome = .rejected reason) :
    f.way? = none := by
  rw [way?, h]

/-- A finding has this way just if it accepts on this path. -/
theorem way?_eq_some_iff {f : Finding C} {p : Path} :
    f.way? = some p ↔ f.outcome = .accepted ∧ f.path = p := by
  rw [way?]
  cases f.outcome <;> simp

/-- What was counted before does not change the way. -/
@[simp] theorem way?_count (f : Finding C) (last : Option (Finding C)) :
    (f.count last).way? = f.way? := by
  simp only [way?, outcome_count, path_count]

end Finding

namespace Machine

variable [Input C] [Rewind C M] [BEq K] {m : Machine C K}

/-- A transition of a state is eligible with this context and stack. -/
def eligibleAt (m : Machine C K) (s : Fin m.count) (c : C) (k : Stack K)
    (i : Fin (m.state s).transitions.length) : Bool :=
  (m.transitionOf s i).eligible c k

/-- Exploring to this depth ends, and finds this way to accept, or none. -/
def ExploresTo (m : Machine C K) (depth : Nat) (s : Fin m.count) (c : C) (k : Stack K) (h : Path)
    (way : Option Path) : Prop :=
  ∃ f, m.explore depth s c k h = some f ∧ f.way? = way

section TryEach

variable {visit : Fin m.count → C → Stack K → Path → Option (Finding C)} {s : Fin m.count} {c : C}
  {k : Stack K} {h : Path} {last : Option (Finding C)}

/-- An eligible transition is explored. An acceptance is what is found; after a rejection the
remaining transitions are tried, with the context rewound. -/
theorem tryEach_cons_of_eligible {i : Fin (m.state s).transitions.length}
    (hi : m.eligibleAt s c k i) (l : List (Fin (m.state s).transitions.length)) :
    m.tryEach visit s k h last (i :: l) c =
      match visit (m.transitionOf s i).target c
        (k.apply (m.transitionOf s i).pop (m.transitionOf s i).push) (h.push (m.moveOf s i)) with
      | none => none
      | some f =>
        match f.outcome with
        | .accepted => some (f.count last)
        | .rejected _ =>
          m.tryEach visit s k h (some (f.count last)) l
            (Rewind.rewind f.context (Rewind.mark c)) := by
  rw [tryEach]
  exact if_pos hi

/-- A transition that is not eligible is passed over. -/
theorem tryEach_cons_of_not_eligible {i : Fin (m.state s).transitions.length}
    (hi : ¬ m.eligibleAt s c k i) (l : List (Fin (m.state s).transitions.length)) :
    m.tryEach visit s k h last (i :: l) c = m.tryEach visit s k h last l c := by
  rw [tryEach]
  exact if_neg hi

/-- Transitions that are not eligible are passed over. -/
theorem tryEach_of_not_eligible {l : List (Fin (m.state s).transitions.length)}
    (hl : ∀ i ∈ l, ¬ m.eligibleAt s c k i) (rest : List (Fin (m.state s).transitions.length)) :
    m.tryEach visit s k h last (l ++ rest) c = m.tryEach visit s k h last rest c := by
  induction l with
  | nil => rfl
  | cons i l ih =>
    rw [List.cons_append, tryEach_cons_of_not_eligible (hl i List.mem_cons_self)]
    exact ih fun j hj => hl j (List.mem_cons_of_mem i hj)

/-- Transitions none of which is eligible are as good as none at all. -/
theorem tryEach_eq_nil {l : List (Fin (m.state s).transitions.length)}
    (hl : ∀ i ∈ l, ¬ m.eligibleAt s c k i) :
    m.tryEach visit s k h last l c = m.tryEach visit s k h last [] c := by
  rw [← tryEach_of_not_eligible hl [], List.append_nil]

variable (hm : m.Rewinds) {way : Fin (m.state s).transitions.length → Option Path}

include hm

/-- **Trying transitions finds the first way** that is found below an eligible one. -/
theorem exists_tryEach_way (l : List (Fin (m.state s).transitions.length))
    (hvisit : ∀ i, m.eligibleAt s c k i → ∃ f, visit (m.transitionOf s i).target c
      (k.apply (m.transitionOf s i).pop (m.transitionOf s i).push) (h.push (m.moveOf s i)) =
        some f ∧ m.Derives c f.context ∧ f.way? = way i)
    (hlast : ∀ f, last = some f → f.way? = none)
    (hsome : last ≠ none ∨ ∃ i ∈ l, m.eligibleAt s c k i) :
    ∃ f, m.tryEach visit s k h last l c = some f ∧
      f.way? = (l.filter (m.eligibleAt s c k)).findSome? way := by
  induction l generalizing last with
  | nil =>
    obtain ⟨f, rfl⟩ := Option.ne_none_iff_exists'.1 (hsome.resolve_right (by simp))
    exact ⟨_, rfl, hlast f rfl⟩
  | cons i l ih =>
    by_cases he : m.eligibleAt s c k i
    · obtain ⟨f, hf, hderives, hway⟩ := hvisit i he
      rw [tryEach_cons_of_eligible he, hf, List.filter_cons_of_pos he, List.findSome?_cons,
        ← hway]
      cases ho : f.outcome with
      | accepted =>
        refine ⟨f.count last, by simp only [ho], ?_⟩
        rw [Finding.way?_count, Finding.way?_of_accepted ho]
      | rejected reason =>
        -- Rewinding gives back the context, so the rest is tried on the same one.
        simp only [ho, hm c f.context hderives, Finding.way?_of_rejected ho]
        refine ih (fun f' hf' => ?_) (.inl (Option.some_ne_none _))
        rw [← Option.some.inj hf', Finding.way?_count, Finding.way?_of_rejected ho]
    · rw [tryEach_cons_of_not_eligible he, List.filter_cons_of_neg he]
      refine ih hlast (hsome.imp_right ?_)
      rintro ⟨j, hj, hej⟩
      rcases List.mem_cons.1 hj with rfl | hj
      · exact absurd hej he
      · exact ⟨j, hj, hej⟩

end TryEach

section Explore

variable {depth : Nat} {s : Fin m.count} {c c' : C} {k : Stack K} {h : Path}
  (ha : (m.state s).action c k = (c', .proceed))

include ha

/-- Where no transition is eligible, the decision tells whether it is accepted. -/
theorem exploresTo_of_impasse (hnone : ∀ i, ¬ m.eligibleAt s c' k i) :
    m.ExploresTo (depth + 1) s c k h
      (if (m.decide s c' k).2 = .accepted then some h else none) := by
  have hpass : m.tryEach (m.explore depth) s k h none (List.finRange _) c' =
      m.tryEach (m.explore depth) s k h none [] c' :=
    tryEach_eq_nil fun i _ => hnone i
  refine ⟨⟨(m.decide s c' k).2, (m.decide s c' k).1, h, 0, 0⟩, ?_, ?_⟩
  · rw [explore, ha]
    exact hpass
  · rw [Finding.way?]
    cases (m.decide s c' k).2 <;> rfl

/-- **Where some transition is eligible,** the first way below the eligible ones is found. -/
theorem exploresTo_of_eligible (hm : m.Rewinds)
    {way : Fin (m.state s).transitions.length → Option Path}
    (hsome : ∃ i, m.eligibleAt s c' k i)
    (hvisit : ∀ i, m.eligibleAt s c' k i → m.ExploresTo depth (m.transitionOf s i).target c'
      (k.apply (m.transitionOf s i).pop (m.transitionOf s i).push) (h.push (m.moveOf s i)) (way i)) :
    m.ExploresTo (depth + 1) s c k h
      (((List.finRange (m.state s).transitions.length).filter (m.eligibleAt s c' k)).findSome?
        way) := by
  obtain ⟨i, hi⟩ := hsome
  have hderives : ∀ i, m.eligibleAt s c' k i → ∃ f, m.explore depth (m.transitionOf s i).target c'
      (k.apply (m.transitionOf s i).pop (m.transitionOf s i).push) (h.push (m.moveOf s i)) =
        some f ∧ m.Derives c' f.context ∧ f.way? = way i := by
    intro i hi
    obtain ⟨f, hf, hway⟩ := hvisit i hi
    exact ⟨f, hf, (Node.tells_explore hm depth _ _ _ _ _ hf).derives, hway⟩
  rw [ExploresTo, explore, ha]
  exact exists_tryEach_way hm _ hderives (fun f hf => by cases hf)
    (.inr ⟨i, List.mem_finRange i, hi⟩)

/-- Where one transition alone is eligible, what is found is what is found below it. -/
theorem exploresTo_of_unique (hm : m.Rewinds) {i : Fin (m.state s).transitions.length}
    (hi : m.eligibleAt s c' k i) (hunique : ∀ j, m.eligibleAt s c' k j → j = i)
    {way : Option Path}
    (hvisit : m.ExploresTo depth (m.transitionOf s i).target c'
      (k.apply (m.transitionOf s i).pop (m.transitionOf s i).push) (h.push (m.moveOf s i)) way) :
    m.ExploresTo (depth + 1) s c k h way := by
  have hfirst : m.ExploresTo (depth + 1) s c k h
      (((List.finRange _).filter (m.eligibleAt s c' k)).findSome? fun _ => way) := by
    refine exploresTo_of_eligible ha hm ⟨i, hi⟩ fun j hj => ?_
    obtain rfl := hunique j hj
    exact hvisit
  have hmem : i ∈ (List.finRange _).filter (m.eligibleAt s c' k) :=
    List.mem_filter.2 ⟨List.mem_finRange i, hi⟩
  cases way with
  | none => rwa [List.findSome?_eq_none_iff.2 fun _ _ => rfl] at hfirst
  | some p =>
    obtain ⟨j, l, hl⟩ := List.exists_cons_of_ne_nil (List.ne_nil_of_mem hmem)
    rwa [hl, List.findSome?_cons] at hfirst

end Explore

/-- A search ends with the way that exploring from its start finds. -/
theorem ExploresTo.exists_search [LawfulBEq K] {c : C} {depth : Nat} {way : Option Path}
    (h : m.ExploresTo depth m.initial c .empty (.nil (m.stateName m.initial)) way) :
    ∃ turns r, m.search {} c turns = some r ∧
      ∀ p, r.outcome = .accepted ∧ r.path = p ↔ way = some p := by
  obtain ⟨f, hf, rfl⟩ := h
  obtain ⟨turns, r, hr, hfound⟩ := Search.exists_search_of_explore hf
  have hpath : r.path = f.path := (congrArg Finding.path hfound).trans f.path_concluded
  have houtcome : r.outcome = f.concluded.outcome := congrArg Finding.outcome hfound
  refine ⟨turns, r, hr, fun p => ?_⟩
  rw [Finding.way?_eq_some_iff, hpath, houtcome, f.concluded_accepted_iff]

end Machine
end StateMachine
