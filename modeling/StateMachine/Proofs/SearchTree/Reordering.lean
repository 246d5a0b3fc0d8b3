/-
# The order of transitions

The transitions of a state are tried in the order in which they are declared. Two machines that
differ in this order only (`Machine.Reordered`) have search trees which are the same but for the
order of children (`Machine.Reordering.children_node`): the same context and stack at corresponding
nodes, and the same leaves with the same outcomes. So what a rejection costs is the same
(`Machine.Reordering.effort_node`), and a search of the one rejects just if a search of the other
does.

Nothing of the sort holds of acceptances: one order may lead to an accepting leaf where another
one goes on for ever before it gets there.
-/

import Mathlib.Algebra.BigOperators.Group.List.Basic
import Mathlib.Data.List.Perm.Basic
import StateMachine.Proofs.Draft.Order
import StateMachine.Proofs.SearchTree.Effort

namespace StateMachine

universe u v w x y

variable {C : Type u} {K : Type v} {M : Type w}

namespace State

variable {σ : Type x} {τ : Type y} {s s' : State C K σ}

/-- The states differ only in the order of their transitions. -/
structure Reordered (s s' : State C K σ) : Prop where
  transitions : s'.transitions.Perm s.transitions
  rest : s' = { s with transitions := s'.transitions }

/-- Giving targets in a way that tells them apart does not hide what else differs. -/
theorem Reordered.of_retarget {f : σ → τ} (hf : Function.Injective f)
    (h : (s.retarget f).Reordered (s'.retarget f)) : s.Reordered s' :=
  ⟨(List.map_perm_map_iff (withTarget_injective hf)).1 h.transitions,
    retarget_injective hf h.rest⟩

end State

namespace Machine

/-- The states of a machine, their targets given by names. -/
def row (m : Machine C K) : List (DraftState C K) :=
  m.states.toList.map (State.retarget m.stateName)

/-- **The machines differ only in the order of the transitions inside their states,** and perhaps in
their own names. -/
structure Reordered (m m' : Machine C K) : Prop where
  states : List.Forall₂ State.Reordered m.row m'.row
  initial : m'.stateName m'.initial = m.stateName m.initial
  policy : m'.policy = m.policy

/-- The states of `m` stand in `m'`, with their transitions in another order. -/
structure Reordering (m m' : Machine C K) where
  /-- The place in `m'` of a state of `m`; every place is one. -/
  place : Fin m.count → Fin m'.count
  surjective : Function.Surjective place
  state : ∀ i, ((m.state i).retarget place).Reordered (m'.state (place i))
  initial : m'.initial = place m.initial
  policy : m'.policy = m.policy

/-- The row has one state for each state of the machine. -/
theorem length_row (m : Machine C K) : m.row.length = m.count := by
  simp [row]

/-- Each state is in the same place. -/
theorem Reordered.exists_reordering {m m' : Machine C K} (h : m.Reordered m') :
    Nonempty (m.Reordering m') := by
  have hcount : m.count = m'.count := by
    rw [← m.length_row, ← m'.length_row]
    exact h.states.length_eq
  have hstate : ∀ i, ((m.state i).retarget m.stateName).Reordered
      ((m'.state (i.cast hcount)).retarget m'.stateName) := by
    intro i
    have hi : i.val < m.row.length := by
      rw [m.length_row]
      exact i.isLt
    have hi' : i.val < m'.row.length := h.states.length_eq ▸ hi
    have hget := h.states.get hi hi'
    simpa [row, state] using hget
  have hname : ∀ i, m'.stateName (i.cast hcount) = m.stateName i :=
    fun i => congrArg State.name (hstate i).rest
  refine ⟨{ place := Fin.cast hcount, surjective := (finCongr hcount).surjective,
            state := fun i => ?_, initial := ?_, policy := h.policy }⟩
  · -- Names tell states apart, so targets that agree by names agree by positions.
    refine State.Reordered.of_retarget m'.stateName_injective ?_
    rw [State.retarget_retarget, funext hname]
    exact hstate i
  · apply m'.stateName_injective
    rw [h.initial, hname]

end Machine

/-- What is built from drafts whose surviving states differ only in the order of transitions. -/
theorem Draft.reordered_of_build {d d' : Draft C K} {m m' : Machine C K} (hm : d.build = .ok m)
    (hm' : d'.build = .ok m') (hstates : List.Forall₂ State.Reordered d.survivors d'.survivors)
    (hinitial : d'.initial = d.initial) (hpolicy : d'.policy = d.policy) : m.Reordered m' := by
  obtain ⟨initial, hi, hrealizes⟩ := realizes_of_build hm
  obtain ⟨initial', hi', hrealizes'⟩ := realizes_of_build hm'
  obtain rfl : initial' = initial := Option.some.inj (hi'.symm.trans (hinitial.trans hi))
  refine ⟨?_, hrealizes'.initial.trans hrealizes.initial.symm, ?_⟩
  · rw [Machine.row, Machine.row, hrealizes.states, hrealizes'.states]
    exact hstates
  · rw [(name_policy_of_build hm).2, (name_policy_of_build hm').2, hpolicy]

namespace Machine.Reordering

variable {m m' : Machine C K} (r : m.Reordering m')

/-- Corresponding states have the same action. -/
theorem action_place (i : Fin m.count) : (m'.state (r.place i)).action = (m.state i).action := by
  rw [(r.state i).rest]
  rfl

/-- At corresponding states the machines decide alike. -/
theorem decide_place [Input C] (i : Fin m.count) (c : C) (k : Stack K) :
    m'.decide (r.place i) c k = m.decide i c k := by
  unfold decide
  rw [(r.state i).rest, r.policy]
  rfl

/-- Corresponding states have the same transitions in some order. -/
theorem transitions_place (i : Fin m.count) :
    (m'.state (r.place i)).transitions.Perm
      ((m.state i).transitions.map fun t => t.withTarget (r.place t.target)) :=
  (r.state i).transitions

include r in
/-- The machines make the same contexts. -/
theorem derives [Input C] {c d : C} (h : m'.Derives c d) : m.Derives c d := by
  induction h with
  | refl => exact .refl c
  | action s k _ ih =>
    obtain ⟨s, rfl⟩ := r.surjective s
    rw [r.action_place]
    exact ih.action s k
  | decision s k _ ih =>
    obtain ⟨s, rfl⟩ := r.surjective s
    rw [r.decide_place]
    exact ih.decision s k

include r in
/-- If the contexts of the one machine go back to their marks, so do those of the other. -/
theorem rewinds [Input C] [Rewind C M] (hm : m.Rewinds) : m'.Rewinds :=
  fun c d h => hm c d (r.derives h)

/-! ## The search tree -/

/-- The same moment for the other machine. -/
def node (x : Node m) : Node m' := ⟨r.place x.state, x.context, x.stack⟩

/-- Corresponding searches begin at corresponding roots. -/
theorem node_root (c : C) : r.node (.root m c) = .root m' c := by
  simp only [node, Node.root, r.initial]

variable (x : Node m)

/-- At corresponding nodes the actions come to the same. -/
theorem entered_node : (r.node x).entered = x.entered := by
  unfold Node.entered
  exact congrArg (fun action => action x.context x.stack) (r.action_place x.state)

variable [BEq K]

/-- As many of the transitions are eligible, in another order. -/
theorem filter_eligible (c : C) (k : Stack K) :
    ((m'.state (r.place x.state)).transitions.filter (·.eligible c k)).Perm
      (((m.state x.state).transitions.filter (·.eligible c k)).map
        fun t => t.withTarget (r.place t.target)) := by
  have hperm := (r.transitions_place x.state).filter (·.eligible c k)
  rw [List.filter_map] at hperm
  exact hperm

/-- **The children are the same but for their order.** -/
theorem children_node : (r.node x).children.Perm (x.children.map r.node) := by
  have hperm := (r.filter_eligible x x.entered.1 x.stack).map ((r.node x).after x.entered.1)
  rw [List.map_map] at hperm
  rw [Node.children, Node.children, r.entered_node, List.map_map]
  exact hperm

/-- **The leaves are the same,** with their outcomes. -/
theorem outcome?_node [Input C] : (r.node x).outcome? = x.outcome? := by
  have hany : ∀ c k, (m'.state (r.place x.state)).transitions.any (·.eligible c k) =
      (m.state x.state).transitions.any (·.eligible c k) := by
    intro c k
    rw [(r.transitions_place x.state).any_eq, List.any_map]
    rfl
  have hentered := r.entered_node x
  cases hx : x.entered with
  | mk c signal =>
    rw [hx] at hentered
    cases signal with
    | accept => rw [Node.outcome?_of_accept hx, Node.outcome?_of_accept hentered]
    | reject reason => rw [Node.outcome?_of_reject hx, Node.outcome?_of_reject hentered]
    | proceed =>
      simp only [Node.outcome?, hx, hentered]
      simp only [node, hany, r.decide_place]

/-- **A rejection costs the same.** -/
theorem effort_node [Input C] (depth : Nat) : (r.node x).effort depth = x.effort depth := by
  induction depth generalizing x with
  | zero => rfl
  | succ depth ih =>
    have hsum : ((r.node x).children.map fun y => y.effort depth + 1).sum =
        (x.children.map fun y => y.effort depth + 1).sum := by
      rw [((r.children_node x).map _).sum_eq, List.map_map]
      exact congrArg List.sum (List.map_congr_left fun y _ => congrArg (· + 1) (ih y))
    rw [Node.effort, Node.effort, r.outcome?_node, hsum]

end Machine.Reordering

/-- The machine with the transitions of each state in reverse order. -/
def Machine.reversed (m : Machine C K) : Machine C K where
  name := m.name
  count := m.count
  states := ⟨(m.states.toList.map fun s =>
    { s with transitions := s.transitions.reverse }).toArray, by simp⟩
  initial := m.initial
  policy := m.policy
  names_nodup := by
    rw [Vector.toList_mk, List.map_map]
    exact m.names_nodup

/-- Reversing the transitions of every state is one way of reordering them. -/
theorem Machine.reordered_reversed (m : Machine C K) : m.Reordered m.reversed := by
  have hname : m.reversed.stateName = m.stateName := by
    funext i
    have hstate : m.reversed.state i =
        { m.state i with transitions := (m.state i).transitions.reverse } := List.getElem_map _
    rw [stateName, hstate]
    rfl
  have hstates : m.reversed.states.toList =
      m.states.toList.map fun s => { s with transitions := s.transitions.reverse } := rfl
  refine ⟨?_, congrFun hname m.initial, rfl⟩
  rw [row, row, hname, hstates, List.map_map, List.forall₂_map_left_iff,
    List.forall₂_map_right_iff, List.forall₂_same]
  intro s _
  exact ⟨(List.reverse_perm s.transitions).map _, rfl⟩

/-- **The order of transitions decides which path is found, never whether one is.** Let two machines
differ only in the order of the transitions inside their states, let contexts go back to their
marks, and let there be no limits.

* If a search of the one rejects then so does a search of the other on the same context, after the
  same number of steps.
* If both searches end, both accept or both reject. -/
theorem order_decides_path_only [Input C] [Rewind C M] [BEq K] [LawfulBEq K] {m m' : Machine C K}
    (h : m.Reordered m') (hm : m.Rewinds) (c : C) :
    (∀ turns r reason, m.search {} c turns = some r → r.outcome = .rejected reason →
      ∃ turns' r' reason', m'.search {} c turns' = some r' ∧ r'.outcome = .rejected reason' ∧
        r'.steps = r.steps) ∧
    ∀ turns r turns' r', m.search {} c turns = some r → m'.search {} c turns' = some r' →
      (r.outcome = .accepted ↔ r'.outcome = .accepted) := by
  obtain ⟨e⟩ := h.exists_reordering
  have hm' : m'.Rewinds := e.rewinds hm
  have heffort : ∀ depth, (Node.root m' c).effort depth = (Node.root m c).effort depth := by
    intro depth
    rw [← e.node_root, e.effort_node]
  refine ⟨fun turns r reason hr ho => ?_, fun turns r turns' r' hr hr' => ?_⟩
  · obtain ⟨depth, hdepth⟩ := (rejects_iff_effort hm).1 ⟨turns, r, reason, hr, ho, rfl⟩
    exact (rejects_iff_effort hm').2 ⟨depth, (heffort depth).trans hdepth⟩
  · rw [accepted_iff_effort hm hr, accepted_iff_effort hm' hr']
    simp only [heffort]

/-- On `ab`, the machine for palindromes rejects after seven transitions, and so it does with its
transitions in reverse order. On `aa` both accept, but the second one guesses the middle too early
at first and not too late, and fires fewer transitions. -/
theorem palindrome_order :
    (∃ turns r reason, Palindrome.machine.reversed.search {} (Tape.ofString "ab") turns = some r ∧
      r.outcome = .rejected reason ∧ r.steps = 7) ∧
    ∃ r r', Palindrome.machine.search {} (Tape.ofString "aa") 9 = some r ∧
      Palindrome.machine.reversed.search {} (Tape.ofString "aa") 7 = some r' ∧
      r.steps = 8 ∧ r'.steps = 6 ∧ r.outcome = .accepted ∧ r'.outcome = .accepted := by
  have horder : Palindrome.machine.Reordered Palindrome.machine.reversed :=
    Palindrome.machine.reordered_reversed
  have hsearch : ∃ r reason, Palindrome.machine.search {} (Tape.ofString "ab") 8 = some r ∧
      r.outcome = .rejected reason ∧ r.steps = 7 := ⟨_, _, rfl, rfl, rfl⟩
  have hboth : ∃ r r', Palindrome.machine.search {} (Tape.ofString "aa") 9 = some r ∧
      Palindrome.machine.reversed.search {} (Tape.ofString "aa") 7 = some r' ∧
      r.steps = 8 ∧ r'.steps = 6 ∧ r.outcome = .accepted := ⟨_, _, rfl, rfl, rfl, rfl, rfl⟩
  obtain ⟨r, reason, hr, ho, hsteps⟩ := hsearch
  obtain ⟨q, q', hq, hq', hqsteps, hqsteps', hqo⟩ := hboth
  obtain ⟨hreject, -⟩ :=
    order_decides_path_only horder Palindrome.rewinds_machine (Tape.ofString "ab")
  obtain ⟨-, halike⟩ :=
    order_decides_path_only horder Palindrome.rewinds_machine (Tape.ofString "aa")
  refine ⟨?_, q, q', hq, hq', hqsteps, hqsteps', hqo, (halike 9 q 7 q' hq hq').1 hqo⟩
  rw [← hsteps]
  exact hreject 8 r reason hr ho

end StateMachine
