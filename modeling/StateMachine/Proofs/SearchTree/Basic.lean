/-
# The search tree

The ways in which a machine can go on from a moment form a tree. Its nodes are given by the state
that is about to be entered, the context and the stack. If the action of the state asks to proceed,
each transition that is eligible then leads to a child; a node is a leaf if the action settles the
outcome, or if there is no eligible transition and the decision at an impasse settles it.

A node below another one is found by the positions of the transitions on the way. Lists of
positions are compared lexicographically, so that of two leaves the smaller one lies to the left:
it is the one that is found first by trying transitions in order.

`Node.Leftmost` says that a list of positions leads to the first accepting leaf and that there are
finitely many nodes before it. `Node.Barren` says that the tree is finite and accepts nowhere.
-/

import Mathlib.Data.Set.Finite.Lattice
import Mathlib.Order.Interval.Finset.Nat
import StateMachine.Machine

namespace StateMachine

universe u v

/-- A set of lists is finite if the heads that occur in it are bounded and, for each head, finitely
many tails follow. -/
theorem finite_of_finite_tails {S : Set (List Nat)} (n : Nat) (hn : ∀ i p, i :: p ∈ S → i < n)
    (hS : ∀ i < n, {p | i :: p ∈ S}.Finite) : S.Finite := by
  have hunion : (⋃ i ∈ Set.Iio n, List.cons i '' {p | i :: p ∈ S}).Finite :=
    (Set.finite_Iio n).biUnion fun i hi => (hS i hi).image _
  refine (hunion.insert []).subset ?_
  rintro (_ | ⟨i, p⟩) hp
  · exact Set.mem_insert _ _
  · exact Set.mem_insert_of_mem _ (Set.mem_biUnion (hn i p hp) ⟨p, hp, rfl⟩)

variable {C : Type u} {K : Type v} {m : Machine C K}

/-- A moment at which a machine is about to enter a state. -/
structure Node (m : Machine C K) where
  state : Fin m.count
  context : C
  stack : Stack K

namespace Node

/-- The beginning of a run. -/
def root (m : Machine C K) (c : C) : Node m := ⟨m.initial, c, .empty⟩

/-- What the action of the state makes of the context, and what it asks for. -/
def entered (x : Node m) : C × Signal := (m.state x.state).action x.context x.stack

variable [BEq K]

/-- The node to which the transition at a position leads: `none` if the action does not ask to
proceed or the transition is not eligible then. -/
def child? (x : Node m) (i : Nat) : Option (Node m) :=
  match x.entered with
  | (_, .accept) => none
  | (_, .reject _) => none
  | (c, .proceed) =>
    match (m.state x.state).transitions[i]? with
    | none => none
    | some t =>
      if t.eligible c x.stack then some ⟨t.target, c, x.stack.apply t.pop t.push⟩ else none

/-- The node to which the transitions at the given positions lead. -/
def descend : Node m → List Nat → Option (Node m)
  | x, [] => some x
  | x, i :: p =>
    match x.child? i with
    | none => none
    | some y => descend y p

/-- The tree below a node: the lists of positions that lead somewhere. -/
def tree (x : Node m) : Set (List Nat) := {p | ∃ y, x.descend p = some y}

/-- The outcome at a leaf; `none` at a node with children. -/
def outcome? [Input C] (x : Node m) : Option Outcome :=
  match x.entered with
  | (_, .accept) => some .accepted
  | (_, .reject reason) => some (.rejected reason)
  | (c, .proceed) =>
    if (m.state x.state).transitions.any (·.eligible c x.stack) then none
    else some (m.decide x.state c x.stack).2

/-- The given positions lead to a leaf with this outcome. -/
def EndsAt [Input C] (x : Node m) (p : List Nat) (o : Outcome) : Prop :=
  ∃ y, x.descend p = some y ∧ y.outcome? = some o

/-- **The first accepting leaf:** every leaf before it rejects, and there are finitely many nodes
before it, those on the way to it included. -/
structure Leftmost [Input C] (x : Node m) (p : List Nat) : Prop where
  accepts : x.EndsAt p .accepted
  rejects : ∀ q < p, ¬ x.EndsAt q .accepted
  finite : {q ∈ x.tree | q < p}.Finite

/-- **No accepting leaf at all,** in a tree that is finite. -/
structure Barren [Input C] (x : Node m) : Prop where
  rejects : ∀ p, ¬ x.EndsAt p .accepted
  finite : x.tree.Finite

/-- The nodes that have no accepting leaf before them: those that a search comes to. -/
def visited [Input C] (x : Node m) : Set (List Nat) :=
  {q ∈ x.tree | ∀ p < q, ¬ x.EndsAt p .accepted}

section Child

variable {x y : Node m} {c : C} {i : Nat} {p : List Nat} {o : Outcome}

/-- A node at which the action accepts has no children. -/
theorem child?_of_accept (h : x.entered = (c, .accept)) (i : Nat) : x.child? i = none := by
  rw [child?, h]

/-- A node at which the action rejects has no children. -/
theorem child?_of_reject {reason : String} (h : x.entered = (c, .reject reason)) (i : Nat) :
    x.child? i = none := by
  rw [child?, h]

/-- A node at which the action lets the run go on has a child for each eligible transition. -/
theorem child?_of_proceed (h : x.entered = (c, .proceed)) (i : Nat) :
    x.child? i = match (m.state x.state).transitions[i]? with
      | none => none
      | some t =>
        if t.eligible c x.stack then some ⟨t.target, c, x.stack.apply t.pop t.push⟩ else none := by
  rw [child?, h]

/-- There are no more children than transitions. -/
theorem lt_of_child?_eq_some (h : x.child? i = some y) :
    i < (m.state x.state).transitions.length := by
  unfold child? at h
  split at h
  · cases h
  · cases h
  · split at h
    · cases h
    · rename_i t ht
      exact (List.getElem?_eq_some_iff.1 ht).1

/-- Going down goes to a child first. -/
theorem descend_cons (h : x.child? i = some y) (p : List Nat) :
    x.descend (i :: p) = y.descend p := by
  rw [descend, h]

/-- A node further down is below a child. -/
theorem exists_child_of_descend {z : Node m} (h : x.descend (i :: p) = some z) :
    ∃ y, x.child? i = some y ∧ y.descend p = some z := by
  rw [descend] at h
  split at h
  · cases h
  · rename_i y hy
    exact ⟨y, hy, h⟩

/-- A position that is not the root's belongs to the tree below a child. -/
theorem exists_child_of_mem_tree (h : i :: p ∈ x.tree) :
    ∃ y, x.child? i = some y ∧ p ∈ y.tree := by
  obtain ⟨z, hz⟩ := h
  obtain ⟨y, hy, hp⟩ := exists_child_of_descend hz
  exact ⟨y, hy, z, hp⟩

/-- If the tree below a child is finite, so is the part of the tree that goes through it. -/
theorem finite_tails (h : ∀ y, x.child? i = some y → y.tree.Finite) :
    {p | i :: p ∈ x.tree}.Finite := by
  cases hy : x.child? i with
  | none =>
    refine Set.finite_empty.subset fun p hp => ?_
    obtain ⟨y, hy', -⟩ := exists_child_of_mem_tree hp
    rw [hy] at hy'
    cases hy'
  | some y =>
    refine (h y hy).subset fun p hp => ?_
    obtain ⟨y', hy', hp⟩ := exists_child_of_mem_tree hp
    rw [hy] at hy'
    obtain rfl := Option.some.inj hy'
    exact hp

variable [Input C]

/-- A node at which the action accepts is a leaf that accepts. -/
theorem outcome?_of_accept (h : x.entered = (c, .accept)) : x.outcome? = some .accepted := by
  rw [outcome?, h]

/-- A node at which the action rejects is a leaf that rejects, for the same reason. -/
theorem outcome?_of_reject {reason : String} (h : x.entered = (c, .reject reason)) :
    x.outcome? = some (.rejected reason) := by
  rw [outcome?, h]

/-- A node with a child is not a leaf. -/
theorem outcome?_of_child (h : x.child? i = some y) : x.outcome? = none := by
  unfold child? at h
  unfold outcome?
  split at h
  · cases h
  · cases h
  · split at h
    · cases h
    · rename_i c _ t ht
      split at h
      · rename_i he
        rw [if_pos (List.any_eq_true.2 ⟨t, List.mem_of_getElem? ht, he⟩)]
      · cases h

/-- A node without children is a leaf, although its action asks to proceed. -/
theorem outcome?_of_childless (h : x.entered = (c, .proceed)) (hx : ∀ i, x.child? i = none) :
    x.outcome? = some (m.decide x.state c x.stack).2 := by
  have hany : ¬ (m.state x.state).transitions.any (·.eligible c x.stack) := by
    intro hany
    obtain ⟨t, ht, he⟩ := List.any_eq_true.1 hany
    obtain ⟨i, hi⟩ := List.getElem?_of_mem ht
    have hchild := hx i
    rw [child?_of_proceed h, hi] at hchild
    simp only [he, if_true] at hchild
    cases hchild
  rw [outcome?, h]
  exact if_neg hany

/-- The leaves below a child are leaves of the tree, with their outcomes. -/
theorem endsAt_cons (h : x.child? i = some y) : x.EndsAt (i :: p) o ↔ y.EndsAt p o := by
  rw [EndsAt, EndsAt, descend_cons h]

/-- A leaf that is not the root is below a child. -/
theorem exists_child_of_endsAt (h : x.EndsAt (i :: p) o) :
    ∃ y, x.child? i = some y ∧ y.EndsAt p o := by
  obtain ⟨z, hz, ho⟩ := h
  obtain ⟨y, hy, hp⟩ := exists_child_of_descend hz
  exact ⟨y, hy, z, hp, ho⟩

/-- The node itself is the leaf at which one ends without a step. -/
theorem outcome?_of_endsAt_nil (h : x.EndsAt [] o) : x.outcome? = some o := by
  obtain ⟨y, hy, ho⟩ := h
  obtain rfl := Option.some.inj hy
  exact ho

end Child

section Compose

variable [Input C] {x y : Node m} {i : Nat} {p : List Nat}

/-- A node with a child does not accept at once, so an accepting leaf lies below a child. -/
theorem exists_child_of_accepts (hy : x.child? i = some y) (h : x.EndsAt p .accepted) :
    ∃ j q z, p = j :: q ∧ x.child? j = some z ∧ z.EndsAt q .accepted := by
  cases p with
  | nil =>
    have houtcome := outcome?_of_endsAt_nil h
    rw [outcome?_of_child hy] at houtcome
    cases houtcome
  | cons j q =>
    obtain ⟨z, hz, hq⟩ := exists_child_of_endsAt h
    exact ⟨j, q, z, rfl, hz, hq⟩

/-- A node none of whose children accepts anywhere, and which does not accept itself. -/
theorem barren_of_children (hx : x.outcome? ≠ some .accepted)
    (h : ∀ i y, x.child? i = some y → y.Barren) : x.Barren := by
  constructor
  · rintro (_ | ⟨i, p⟩) ho
    · exact hx (outcome?_of_endsAt_nil ho)
    · obtain ⟨y, hy, hp⟩ := exists_child_of_endsAt ho
      exact (h i y hy).rejects p hp
  · refine finite_of_finite_tails (m.state x.state).transitions.length (fun i p hp => ?_)
      fun i _ => finite_tails fun y hy => (h i y hy).finite
    obtain ⟨y, hy, -⟩ := exists_child_of_mem_tree hp
    exact lt_of_child?_eq_some hy

/-- A node that accepts at once is the first accepting leaf of its tree. -/
theorem leftmost_nil (hx : x.outcome? = some .accepted) : x.Leftmost [] := by
  refine ⟨⟨x, rfl, hx⟩, fun q hq => absurd hq (List.not_lt_nil q), ?_⟩
  exact Set.finite_empty.subset fun q hq => List.not_lt_nil q hq.2

section Before

variable (hy : x.child? i = some y) (hbefore : ∀ j < i, ∀ z, x.child? j = some z → z.Barren)

include hy hbefore

/-- Nothing accepts before a node below a child, if nothing below this child does and nothing below
the children before it. -/
theorem not_accepts_of_lt_cons (hp : ∀ q < p, ¬ y.EndsAt q .accepted) :
    ∀ q < i :: p, ¬ x.EndsAt q .accepted := by
  intro q hq ho
  obtain ⟨j, q, z, rfl, hz, ho⟩ := exists_child_of_accepts hy ho
  rcases List.cons_lt_cons_iff.1 hq with hj | ⟨rfl, hlt⟩
  · exact (hbefore j hj z hz).rejects q ho
  · obtain rfl := Option.some.inj (hy.symm.trans hz)
    exact hp q hlt ho

/-- A search that comes to a child comes to the nodes that it visits below the child. -/
theorem cons_mem_visited (h : p ∈ y.visited) : i :: p ∈ x.visited := by
  obtain ⟨⟨z, hz⟩, hp⟩ := h
  exact ⟨⟨z, (descend_cons hy p).trans hz⟩, not_accepts_of_lt_cons hy hbefore hp⟩

/-- The first accepting leaf below a child is the first below the node, if the children before
accept nowhere. -/
theorem Leftmost.cons (h : y.Leftmost p) : x.Leftmost (i :: p) := by
  refine ⟨(endsAt_cons hy).2 h.accepts, not_accepts_of_lt_cons hy hbefore h.rejects, ?_⟩
  refine finite_of_finite_tails (i + 1) (fun j q hq => ?_) fun j hj => ?_
  · rcases List.cons_lt_cons_iff.1 hq.2 with hj | ⟨rfl, -⟩ <;> omega
  · rcases Nat.lt_succ_iff_lt_or_eq.1 hj with hj | rfl
    · exact (finite_tails fun z hz => (hbefore j hj z hz).finite).subset fun q hq => hq.1
    · refine h.finite.subset fun q hq => ?_
      obtain ⟨z, hz, htree⟩ := exists_child_of_mem_tree hq.1
      obtain rfl := Option.some.inj (hy.symm.trans hz)
      exact ⟨htree, ((List.cons_lt_cons_iff.1 hq.2).resolve_left (Nat.lt_irrefl j)).2⟩

end Before

/-- With finitely many nodes before an accepting leaf, finitely many are visited. -/
theorem finite_visited_of_accepts (hp : x.EndsAt p .accepted)
    (hfinite : {q ∈ x.tree | q < p}.Finite) : x.visited.Finite := by
  refine (hfinite.insert p).subset ?_
  rintro q ⟨hq, hbefore⟩
  have hnot : ¬ p < q := fun hlt => hbefore p hlt hp
  rcases List.le_iff_lt_or_eq.1 (List.not_lt.1 hnot) with hlt | rfl
  · exact Set.mem_insert_of_mem _ ⟨hq, hlt⟩
  · exact Set.mem_insert _ _

end Compose
end Node
end StateMachine
