/-
# Exploring finds the first accepting leaf

With contexts that can be rewound, exploring a state goes through its search tree from left to
right: each child is explored with the context that the action has left, whatever was done below
the children before. So what is found tells of the tree (`tells_explore`): an acceptance is the
first accepting leaf, a rejection means that there is none. And exploring ends as soon as the nodes
that have no accepting leaf before them do not go down for ever (`exists_explore_of_length_lt`).

`search_finds_leftmost` puts this together for the search itself.
-/

import StateMachine.Proofs.Explore.Cover
import StateMachine.Proofs.Rewind
import StateMachine.Proofs.SearchTree.Basic

namespace StateMachine

universe u v w

variable {C : Type u} {K : Type v} {M : Type w}

/-- The recorded positions of the fired transitions, the first one first. -/
def Path.indices (p : Path) : List Nat := p.moves.toList.map Move.index

/-- The position of the latest move comes last. -/
theorem Path.indices_push (p : Path) (v : Move) : (p.push v).indices = p.indices ++ [v.index] := by
  simp [indices, push]

namespace Node

variable {m : Machine C K} {x y : Node m} {c : C} {h : Path}

/-- The context after the action is derived from the one before. -/
theorem derives_entered [Input C] {signal : Signal} (hx : x.entered = (c, signal)) :
    m.Derives x.context c := by
  have hd : m.Derives x.context x.entered.1 := .action x.state x.stack (.refl _)
  rwa [hx] at hd

variable [BEq K]

/-- A transition that may be fired after the action leads to a child, any other to none. -/
theorem child?_val (hx : x.entered = (c, .proceed))
    (i : Fin (m.state x.state).transitions.length) :
    x.child? i = if (m.transitionOf x.state i).eligible c x.stack then
      some ⟨(m.transitionOf x.state i).target, c,
        x.stack.apply (m.transitionOf x.state i).pop
          (m.transitionOf x.state i).push⟩
      else none := by
  have ht : (m.state x.state).transitions[i.val]? = some (m.transitionOf x.state i) :=
    List.getElem?_eq_getElem i.isLt
  rw [child?_of_proceed hx, ht]

variable [Input C]

/-- What was found from a node on tells of the tree below it: an acceptance that it is the first
one there, a rejection that there is none. -/
structure Tells (x : Node m) (h : Path) (f : Finding C) : Prop where
  derives : m.Derives x.context f.context
  leftmost : f.outcome = .accepted → ∃ p, f.path.indices = h.indices ++ p ∧ x.Leftmost p
  barren : ∀ reason, f.outcome = .rejected reason → x.Barren

/-- An acceptance at the first accepting leaf tells of the tree. -/
theorem tells_of_accepted {f : Finding C} (hd : m.Derives x.context f.context)
    (ho : f.outcome = .accepted) {p : List Nat} (hp : f.path.indices = h.indices ++ p)
    (hx : x.Leftmost p) : x.Tells h f :=
  ⟨hd, fun _ => ⟨p, hp, hx⟩, fun _ hr => absurd (ho.symm.trans hr) Outcome.noConfusion⟩

/-- A rejection tells of a tree that has no accepting leaf. -/
theorem tells_of_rejected {f : Finding C} (hd : m.Derives x.context f.context) {reason : String}
    (ho : f.outcome = .rejected reason) (hx : x.Barren) : x.Tells h f :=
  ⟨hd, fun hr => absurd (ho.symm.trans hr) Outcome.noConfusion, fun _ _ => hx⟩

/-- At a leaf, the outcome there tells of the tree. -/
theorem tells_leaf {d : C} (hd : m.Derives x.context d) (hx : ∀ i, x.child? i = none) {o : Outcome}
    (ho : x.outcome? = some o) : x.Tells h ⟨o, d, h, 0, 0⟩ := by
  cases o with
  | accepted => exact tells_of_accepted hd rfl (List.append_nil _).symm (leftmost_nil ho)
  | rejected reason =>
    refine tells_of_rejected hd rfl (barren_of_children (by rw [ho]; simp) fun i y hy => ?_)
    rw [hx i] at hy
    cases hy

/-- What is known of a node when the transitions from `low` on are still to be tried: those tried
before lead nowhere, and there were none exactly if there is no rejection yet. -/
structure Tried (x : Node m) (low : Nat) (last : Option (Finding C)) : Prop where
  barren : ∀ i < low, ∀ y, x.child? i = some y → y.Barren
  untried : last = none → ∀ i < low, x.child? i = none
  rejected : ∀ f, last = some f →
    (∃ reason, f.outcome = .rejected reason) ∧ ∃ i y, x.child? i = some y

variable {low : Nat} {last : Option (Finding C)}

/-- At first, no transition has been tried. -/
theorem tried_zero (x : Node m) : x.Tried 0 none :=
  ⟨fun i hi => absurd hi (Nat.not_lt_zero i), fun _ i hi => absurd hi (Nat.not_lt_zero i),
    fun f hf => by cases hf⟩

/-- A transition that leads to no child is passed over. -/
theorem Tried.skip (h : x.Tried low last) (hx : x.child? low = none) : x.Tried (low + 1) last := by
  refine ⟨fun i hi y hy => ?_, fun hlast i hi => ?_, h.rejected⟩
  · rcases Nat.lt_succ_iff_lt_or_eq.1 hi with hi | rfl
    · exact h.barren i hi y hy
    · rw [hx] at hy
      cases hy
  · rcases Nat.lt_succ_iff_lt_or_eq.1 hi with hi | rfl
    · exact h.untried hlast i hi
    · exact hx

/-- After a transition that leads nowhere, there is a rejection. -/
theorem Tried.reject (h : x.Tried low last) (hy : x.child? low = some y) (hb : y.Barren)
    {f : Finding C} {reason : String} (ho : f.outcome = .rejected reason) :
    x.Tried (low + 1) (some f) := by
  refine ⟨fun i hi z hz => ?_, nofun, fun f' hf' => ?_⟩
  · rcases Nat.lt_succ_iff_lt_or_eq.1 hi with hi | rfl
    · exact h.barren i hi z hz
    · obtain rfl := Option.some.inj (hy.symm.trans hz)
      exact hb
  · obtain rfl := Option.some.inj hf'
    exact ⟨⟨reason, ho⟩, low, y, hy⟩

/-- When there are no transitions left to be tried, what is found tells of the tree. -/
theorem tells_of_all_tried [Rewind C M]
    {visit : Fin m.count → C → Stack K → Path → Option (Finding C)} (hx : x.entered = (c, .proceed))
    (ht : x.Tried low last) (hlow : (m.state x.state).transitions.length ≤ low) {f : Finding C}
    (hf : m.tryEach visit x.state x.stack h last [] c = some f) : x.Tells h f := by
  have haction : m.Derives x.context c := derives_entered hx
  cases last with
  | none =>
    have hchild : ∀ i, x.child? i = none := by
      intro i
      cases hy : x.child? i with
      | none => rfl
      | some y =>
        have hi := lt_of_child?_eq_some hy
        rw [ht.untried rfl i (by omega)] at hy
        cases hy
    obtain rfl := Option.some.inj hf
    exact tells_leaf (.decision x.state x.stack haction) hchild (outcome?_of_childless hx hchild)
  | some last =>
    obtain ⟨⟨reason, hr⟩, i, y, hy⟩ := ht.rejected last rfl
    obtain rfl := Option.some.inj hf
    refine tells_of_rejected haction hr (barren_of_children ?_ fun j z hz => ?_)
    · rw [outcome?_of_child hy]
      exact nofun
    · have hj := lt_of_child?_eq_some hz
      exact ht.barren j (by omega) z hz

section TryEach

variable [Rewind C M] (hm : m.Rewinds)
  {visit : Fin m.count → C → Stack K → Path → Option (Finding C)}
  (hv : ∀ s c k h f, visit s c k h = some f → Tells ⟨s, c, k⟩ h f)
  (hx : x.entered = (c, .proceed))

include hm hv hx

/-- **What is found by trying the transitions tells of the tree.** The context is that after the
action again, each time the next transition is tried. -/
theorem tells_tryEach (l : List (Fin (m.state x.state).transitions.length))
    (hl : (List.finRange (m.state x.state).transitions.length).drop low = l)
    (ht : x.Tried low last) {f : Finding C}
    (hf : m.tryEach visit x.state x.stack h last l c = some f) : x.Tells h f := by
  induction l generalizing low last with
  | nil =>
    have hlow := List.drop_eq_nil_iff.1 hl
    rw [List.length_finRange] at hlow
    exact tells_of_all_tried hx ht hlow hf
  | cons i l ih =>
    obtain ⟨rfl, hl⟩ := val_of_drop_finRange hl
    have hchild := child?_val hx i
    rw [Machine.tryEach] at hf
    split at hf
    · rename_i he
      rw [if_pos he] at hchild
      split at hf
      · cases hf
      · rename_i f₁ hf₁
        have htells := hv _ _ _ _ _ hf₁
        split at hf
        · rename_i ho
          obtain rfl := Option.some.inj hf
          obtain ⟨p, hp, hleft⟩ := htells.leftmost ho
          have hderives : m.Derives x.context (f₁.count last).context := by
            rw [Finding.context_count]
            exact (derives_entered hx).trans htells.derives
          have hindices : (f₁.count last).path.indices = h.indices ++ i.val :: p := by
            rw [Finding.path_count, hp, Path.indices_push, List.append_assoc]
            rfl
          exact tells_of_accepted hderives ((f₁.outcome_count last).trans ho) hindices
            (hleft.cons hchild ht.barren)
        · rename_i reason ho
          have hcount := (f₁.outcome_count last).trans ho
          -- Whatever was done below the child, the context is again that after the action.
          rw [hm c f₁.context htells.derives] at hf
          exact ih hl (ht.reject hchild (htells.barren reason ho) hcount) hf
    · rename_i he
      rw [if_neg he] at hchild
      exact ih hl (ht.skip hchild) hf

/-- **Trying the transitions ends** if exploring every child does before which there is no
accepting leaf. -/
theorem exists_tryEach
    (hterm : ∀ i y, x.child? i = some y → (∀ j < i, ∀ z, x.child? j = some z → z.Barren) →
      ∀ h, ∃ f, visit y.state y.context y.stack h = some f)
    (l : List (Fin (m.state x.state).transitions.length))
    (hl : (List.finRange (m.state x.state).transitions.length).drop low = l)
    (ht : x.Tried low last) :
    ∃ f, m.tryEach visit x.state x.stack h last l c = some f := by
  induction l generalizing low last with
  | nil => cases last <;> exact ⟨_, rfl⟩
  | cons i l ih =>
    obtain ⟨rfl, hl⟩ := val_of_drop_finRange hl
    have hchild := child?_val hx i
    rw [Machine.tryEach]
    split
    · rename_i he
      rw [if_pos he] at hchild
      -- The children before this one are barren, so exploring it has to end.
      obtain ⟨f, hf⟩ := hterm i _ hchild ht.barren (h.push (m.moveOf x.state i))
      have htells := hv _ _ _ _ _ hf
      rw [hf]
      cases ho : f.outcome with
      | accepted => exact ⟨f.count last, by simp only [ho]⟩
      | rejected reason =>
        simp only [ho]
        rw [hm c f.context htells.derives]
        have hcount := (f.outcome_count last).trans ho
        exact ih hl (ht.reject hchild (htells.barren reason ho) hcount)
    · rename_i he
      rw [if_neg he] at hchild
      exact ih hl (ht.skip hchild)

end TryEach

section Explore

variable [Rewind C M] (hm : m.Rewinds)

include hm

/-- **What exploring finds tells of the tree.** -/
theorem tells_explore (depth : Nat) (s : Fin m.count) (c : C) (k : Stack K) (h : Path)
    (f : Finding C) (hf : m.explore depth s c k h = some f) : Tells ⟨s, c, k⟩ h f := by
  induction depth generalizing s c k h f with
  | zero => cases hf
  | succ depth ih =>
    let x : Node m := ⟨s, c, k⟩
    rw [Machine.explore] at hf
    split at hf
    · rename_i c' ha
      obtain rfl := Option.some.inj hf
      exact tells_leaf (derives_entered (x := x) ha) (child?_of_accept ha) (outcome?_of_accept ha)
    · rename_i c' reason ha
      obtain rfl := Option.some.inj hf
      exact tells_leaf (derives_entered (x := x) ha) (child?_of_reject ha) (outcome?_of_reject ha)
    · rename_i c' ha
      exact tells_tryEach (x := x) hm ih ha _ List.drop_zero (tried_zero x) hf

/-- **Exploring ends** if the nodes that are visited do not go deeper. -/
theorem exists_explore_of_length_lt (depth : Nat) (x : Node m) (h : Path)
    (hx : ∀ q ∈ x.visited, q.length < depth) :
    ∃ f, m.explore depth x.state x.context x.stack h = some f := by
  induction depth generalizing x h with
  | zero =>
    have hroot := hx [] ⟨⟨x, rfl⟩, fun p hp => absurd hp (List.not_lt_nil p)⟩
    exact absurd hroot (Nat.not_lt_zero _)
  | succ depth ih =>
    rw [Machine.explore]
    split
    · exact ⟨_, rfl⟩
    · exact ⟨_, rfl⟩
    · rename_i c ha
      refine exists_tryEach hm (tells_explore hm depth) ha (fun i y hy hbefore h' => ?_) _
        List.drop_zero (tried_zero x)
      -- The children before are barren, so what is visited below `y` is visited below `x`.
      refine ih y h' fun q hq => ?_
      have hlength := hx (i :: q) (cons_mem_visited hy hbefore hq)
      rw [List.length_cons] at hlength
      omega

/-- Exploring ends, to some depth, if finitely many nodes are visited. -/
theorem exists_explore_of_finite {x : Node m} (hx : x.visited.Finite) (h : Path) :
    ∃ depth f, m.explore depth x.state x.context x.stack h = some f := by
  obtain ⟨b, hb⟩ := (hx.image List.length).bddAbove
  refine ⟨b + 1, exists_explore_of_length_lt hm (b + 1) x h fun q hq => ?_⟩
  have hlength : q.length ≤ b := hb (Set.mem_image_of_mem _ hq)
  omega

end Explore
end Node

section Search

variable [Input C] [Rewind C M] [BEq K] [LawfulBEq K] {m : Machine C K} (hm : m.Rewinds) {c : C}

include hm

/-- What a search finds tells of the search tree. -/
theorem tells_search {turns : Nat} {r : Report C} (hr : m.search {} c turns = some r) :
    (r.outcome = .accepted → (Node.root m c).Leftmost r.path.indices) ∧
      ∀ reason, r.outcome = .rejected reason → (Node.root m c).Barren := by
  obtain ⟨depth, e, he, hfound⟩ := Search.exists_explore_of_search hr
  have htells : (Node.root m c).Tells _ e := Node.tells_explore hm depth _ _ _ _ _ he
  have houtcome : r.outcome = e.concluded.outcome := congrArg Finding.outcome hfound
  have hpath : r.path = e.path := (congrArg Finding.path hfound).trans e.path_concluded
  refine ⟨fun ho => ?_, fun reason ho => ?_⟩
  · obtain ⟨p, hp, hleft⟩ :=
      htells.leftmost (e.concluded_accepted_iff.1 (houtcome.symm.trans ho))
    rw [hpath, hp]
    exact hleft
  · obtain ⟨reason', hr'⟩ := Finding.outcome_of_concluded_rejected (houtcome.symm.trans ho)
    exact htells.barren reason' hr'

/-- A search ends if it visits finitely many nodes. -/
theorem exists_search_of_finite (hfinite : (Node.root m c).visited.Finite) :
    ∃ turns r, m.search {} c turns = some r := by
  obtain ⟨depth, e, he⟩ :=
    Node.exists_explore_of_finite hm hfinite (.nil (m.stateName m.initial))
  obtain ⟨turns, r, hr, -⟩ := Search.exists_search_of_explore he
  exact ⟨turns, r, hr⟩

/-- A search finds an accepting leaf that has finitely many nodes before it, or an earlier one. -/
theorem exists_accepted_of_endsAt {p : List Nat} (hp : (Node.root m c).EndsAt p .accepted)
    (hfinite : {q ∈ (Node.root m c).tree | q < p}.Finite) :
    ∃ turns r, m.search {} c turns = some r ∧ r.outcome = .accepted ∧
      ¬ p < r.path.indices := by
  obtain ⟨turns, r, hr⟩ := exists_search_of_finite hm (Node.finite_visited_of_accepts hp hfinite)
  obtain ⟨hleft, hbarren⟩ := tells_search hm hr
  cases ho : r.outcome with
  | accepted => exact ⟨turns, r, hr, ho, fun hlt => (hleft ho).rejects p hlt hp⟩
  | rejected reason => exact absurd hp ((hbarren reason ho).rejects p)

/-- A search rejects if the tree is finite and accepts nowhere. -/
theorem exists_rejected_of_barren (hb : (Node.root m c).Barren) :
    ∃ turns r reason, m.search {} c turns = some r ∧ r.outcome = .rejected reason := by
  obtain ⟨turns, r, hr⟩ := exists_search_of_finite hm (hb.finite.subset fun q hq => hq.1)
  cases ho : r.outcome with
  | accepted => exact absurd ((tells_search hm hr).1 ho).accepts (hb.rejects _)
  | rejected reason => exact ⟨turns, r, reason, hr, ho⟩

end Search

/-- **A search finds the first accepting leaf of the search tree.**

* If it accepts, the recorded positions lead to the first accepting leaf, before which there are
  only finitely many nodes.
* If it rejects, the tree is finite and has no accepting leaf.
* If there is an accepting leaf with finitely many nodes before it, the search accepts, at this
  leaf or before.
* If the tree is finite and has no accepting leaf, the search rejects. -/
theorem search_finds_leftmost [Input C] [Rewind C M] [BEq K] [LawfulBEq K] {m : Machine C K}
    (hm : m.Rewinds) (c : C) :
    (∀ turns r, m.search {} c turns = some r → r.outcome = .accepted →
      (Node.root m c).Leftmost r.path.indices) ∧
    (∀ turns r reason, m.search {} c turns = some r → r.outcome = .rejected reason →
      (Node.root m c).Barren) ∧
    (∀ p, (Node.root m c).EndsAt p .accepted → {q ∈ (Node.root m c).tree | q < p}.Finite →
      ∃ turns r, m.search {} c turns = some r ∧ r.outcome = .accepted ∧
        ¬ p < r.path.indices) ∧
    ((Node.root m c).Barren →
      ∃ turns r reason, m.search {} c turns = some r ∧ r.outcome = .rejected reason) :=
  ⟨fun _ _ hr => (tells_search hm hr).1, fun _ _ reason hr => (tells_search hm hr).2 reason,
    fun _ hp hfinite => exists_accepted_of_endsAt hm hp hfinite, exists_rejected_of_barren hm⟩

/-- A word of two equal letters is accepted after the third transition of the initial state has
been tried for the second time; of two different ones, the tree accepts nothing. -/
theorem palindrome_search_tree :
    (Node.root Palindrome.machine (Tape.ofString "aa")).Leftmost [0, 0, 2, 0, 0] ∧
      (Node.root Palindrome.machine (Tape.ofString "ab")).Barren :=
  ⟨(search_finds_leftmost Palindrome.rewinds_machine (Tape.ofString "aa")).1 20 _ rfl rfl,
    (search_finds_leftmost Palindrome.rewinds_machine (Tape.ofString "ab")).2.1 20 _ _ rfl rfl⟩

end StateMachine
