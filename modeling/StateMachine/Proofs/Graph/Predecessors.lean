/-
# Predecessors that are found

A graph that does not keep the sources of its edges has them found by an index. Where all vertices
can be asked for their successors, what is found turns successors around exactly: parallel edges as
often as they occur, in the order of the vertices, and with as many edges entering the vertices as
leave them. Otherwise every question is answered with the refusal of the first vertex that cannot be
asked, however often the index has been asked before (`predecessors_invert_successors`).

An index has a vertex that is not listed, too, if an edge leads there. So such a vertex is found
although it is not there, unlike in a graph that keeps both ends of its edges; what is not listed is
refused just if no edge leads there (`absent_refused_iff`).
-/

import Mathlib.Algebra.BigOperators.Group.Finset.Basic
import Mathlib.Algebra.BigOperators.Group.Finset.Sigma
import Mathlib.Algebra.GroupWithZero.Nat
import Mathlib.Algebra.Order.BigOperators.Group.Finset
import StateMachine.Graph.Adjacency
import StateMachine.Proofs.Graph.RootedTree

namespace StateMachine

universe u v

variable {G : Type u} {V : Type v} [DecidableEq V]

/-! ## Counting edges by either end -/

section Count

variable {targets : V → List V} {vertices : List V}

/-- The sources of a vertex among others are those that have it as a target. -/
theorem mem_sourcesAmong {u v : V} :
    u ∈ sourcesAmong targets vertices v ↔ u ∈ vertices ∧ v ∈ targets u := by
  rw [sourcesAmong, List.mem_flatMap]
  constructor
  · rintro ⟨w, hw, hu⟩
    obtain ⟨hcount, rfl⟩ := List.mem_replicate.1 hu
    exact ⟨hw, List.count_pos_iff.1 (Nat.pos_of_ne_zero hcount)⟩
  · rintro ⟨hu, hv⟩
    have hcount := List.count_pos_iff.2 hv
    exact ⟨u, hu, List.mem_replicate.2 ⟨Nat.ne_of_gt hcount, rfl⟩⟩

/-- A vertex has as many sources, with repetitions, as it occurs among the targets of the others. -/
theorem length_sourcesAmong (v : V) :
    (sourcesAmong targets vertices v).length =
      (vertices.map fun u => (targets u).count v).sum := by
  simp [sourcesAmong, List.length_flatMap]

/-- **As many edges enter the vertices as leave them,** if all of them lead to vertices. -/
theorem sum_length_sourcesAmong (hnodup : vertices.Nodup)
    (hclosed : ∀ u ∈ vertices, ∀ v ∈ targets u, v ∈ vertices) :
    (vertices.map fun v => (sourcesAmong targets vertices v).length).sum =
      (vertices.map fun u => (targets u).length).sum := by
  have hentering : ∀ v, (sourcesAmong targets vertices v).length =
      ∑ u ∈ vertices.toFinset, (targets u).count v := by
    intro v
    rw [length_sourcesAmong, List.sum_toFinset _ hnodup]
  have hleaving : ∀ u ∈ vertices.toFinset,
      ∑ v ∈ vertices.toFinset, (targets u).count v = (targets u).length := by
    intro u hu
    have hsub : ∀ v ∈ (targets u : Multiset V), v ∈ vertices.toFinset := fun v hv =>
      List.mem_toFinset.2 (hclosed u (List.mem_toFinset.1 hu) v hv)
    simpa using Multiset.sum_count_eq_card hsub
  rw [← List.sum_toFinset _ hnodup, ← List.sum_toFinset _ hnodup]
  calc ∑ v ∈ vertices.toFinset, (sourcesAmong targets vertices v).length
      = ∑ v ∈ vertices.toFinset, ∑ u ∈ vertices.toFinset, (targets u).count v :=
        Finset.sum_congr rfl fun v _ => hentering v
    _ = ∑ u ∈ vertices.toFinset, ∑ v ∈ vertices.toFinset, (targets u).count v :=
        Finset.sum_comm
    _ = ∑ u ∈ vertices.toFinset, (targets u).length := Finset.sum_congr rfl hleaving

end Count

/-! ## What an index answers -/

namespace Indexed

section Questions

variable [Graph G V]

/-- The indexed graph after questions, the first one first. -/
def askAll (x : Indexed G V) (questions : List (GraphQuestion V)) : Indexed G V :=
  questions.foldl (fun x q => (x.ask q).2) x

/-- Questions change nothing but what is held in the index. -/
theorem UpToDate.askAll {x : Indexed G V} (h : x.UpToDate) (questions : List (GraphQuestion V)) :
    (x.askAll questions).graph = x.graph ∧ (x.askAll questions).UpToDate := by
  induction questions generalizing x with
  | nil => exact ⟨rfl, h⟩
  | cons q questions ih =>
    obtain ⟨-, hgraph, hnext⟩ := h.ask q
    obtain ⟨hgraph', hnext'⟩ := ih hnext
    exact ⟨hgraph'.trans hgraph, hnext'⟩

namespace UpToDate

variable {x : Indexed G V} (h : x.UpToDate)

include h

/-- The predecessors of a vertex decide how many edges enter it. -/
theorem answers_of_search {v : V} {answer : GraphResult V (List V)}
    (hv : Graph.searchPredecessors x.graph v = answer) :
    (x.predecessors v).1 = answer ∧ (x.inDegree v).1 = answer.map List.length := by
  have hpredecessors := (h.predecessors v).1.trans hv
  exact ⟨hpredecessors, congrArg (Except.map List.length) hpredecessors⟩

variable (hkept : ∀ v, Graph.predecessors? x.graph v = none)

include hkept

/-- Every question about predecessors is answered with the first refusal. -/
theorem predecessors_of_refused {u : V} {before after : List V} {e : GraphError V}
    (hsplit : x.vertices = before ++ u :: after)
    (hbefore : ∀ w ∈ before, ∃ vs, x.successors w = .ok vs) (hu : x.successors u = .error e)
    (v : V) : (x.predecessors v).1 = .error e ∧ (x.inDegree v).1 = .error e := by
  have htargets := fun w hw => Graph.successors_eq_targets (hbefore w hw)
  exact h.answers_of_search (Graph.searchPredecessors_of_refused (hkept v) hsplit htargets hu)

variable (hasked : ∀ u ∈ x.vertices, ∃ vs, x.successors u = .ok vs)

include hasked

/-- **The sources of a vertex are found** if it is listed, or if an edge leads there. -/
theorem predecessors_of_found {v : V}
    (hv : v ∈ x.vertices ∨ ∃ u ∈ x.vertices, v ∈ Graph.targets x.graph u) :
    (x.predecessors v).1 = .ok (sourcesAmong (Graph.targets x.graph) x.vertices v) ∧
      (x.inDegree v).1 = .ok (sourcesAmong (Graph.targets x.graph) x.vertices v).length := by
  have htargets := fun u hu => Graph.successors_eq_targets (hasked u hu)
  have hsearch := Graph.searchPredecessors_eq (hkept v) htargets
  exact h.answers_of_search (hsearch.trans (if_pos hv))

/-- A vertex that is neither listed nor at the end of an edge is not found. -/
theorem predecessors_of_unmentioned {v : V} (hv : v ∉ x.vertices)
    (hedges : ∀ u ∈ x.vertices, v ∉ Graph.targets x.graph u) :
    (x.predecessors v).1 = .error (.notFound v) ∧
      (x.inDegree v).1 = .error (.notFound v) := by
  have htargets := fun u hu => Graph.successors_eq_targets (hasked u hu)
  have hsearch := Graph.searchPredecessors_eq (hkept v) htargets
  have habsent : ¬ (v ∈ x.vertices ∨ ∃ u ∈ x.vertices, v ∈ Graph.targets x.graph u) := by
    rintro (hlisted | ⟨u, hu, hedge⟩)
    · exact hv hlisted
    · exact hedges u hu hedge
  exact h.answers_of_search (hsearch.trans (if_neg habsent))

end UpToDate
end Questions

/-! ## Predecessors turn successors around -/

/-- **Predecessors that are found are the exact inverse of successors.** Let a graph list each vertex
once and not keep its predecessors, and take an index over it of which anything has been asked.

* If some vertex cannot be asked for its successors, then the refusal of the first of them is the
  answer to every question about predecessors or the number of edges that enter a vertex, be this
  one listed or not.
* Otherwise the predecessors of a vertex are the vertices in their order, each as often as it has the
  vertex among its successors, and the number of edges that enter the vertex is their number. So of
  two vertices, one is a predecessor of the other just if this one is a successor of it.
* If all successors are vertices, too, then as many edges enter the vertices as leave them. -/
theorem predecessors_invert_successors [Graph G V] {g : G} (hnodup : (Graph.vertices g).Nodup)
    (hkept : ∀ v, Graph.predecessors? g v = none) (asked : List (GraphQuestion V)) :
    let x := (ofGraph g).askAll asked
    (∀ before u after e, Graph.vertices g = before ++ u :: after →
      (∀ w ∈ before, ∃ vs, Graph.successors g w = .ok vs) → Graph.successors g u = .error e →
      ∀ v, (x.predecessors v).1 = .error e ∧ (x.inDegree v).1 = .error e) ∧
    ((∀ u ∈ Graph.vertices g, ∃ vs, Graph.successors g u = .ok vs) →
      (∀ v ∈ Graph.vertices g,
        (x.predecessors v).1 = .ok (sourcesAmong (Graph.targets g) (Graph.vertices g) v) ∧
        (x.inDegree v).1 = .ok (sourcesAmong (Graph.targets g) (Graph.vertices g) v).length) ∧
      ∀ a ∈ Graph.vertices g, ∀ b ∈ Graph.vertices g, ∃ sources targets,
        (x.predecessors a).1 = .ok sources ∧ x.successors b = .ok targets ∧
          (b ∈ sources ↔ a ∈ targets)) ∧
    (Graph.Closed g → ∃ entering leaving : V → Nat,
      (∀ v ∈ Graph.vertices g,
        (x.inDegree v).1 = .ok (entering v) ∧ x.outDegree v = .ok (leaving v)) ∧
      ((Graph.vertices g).map entering).sum = ((Graph.vertices g).map leaving).sum) := by
  intro x
  obtain ⟨hgraph, hx⟩ : x.graph = g ∧ x.UpToDate := (upToDate_ofGraph g).askAll asked
  -- Of the questions asked before, only this matters: the graph is the same, the index up to date.
  clear_value x
  subst hgraph
  have hfound := fun hasked v (hv : v ∈ Graph.vertices x.graph) =>
    hx.predecessors_of_found hkept hasked (.inl hv)
  refine ⟨fun before u after e hsplit hbefore hu v =>
    hx.predecessors_of_refused hkept hsplit hbefore hu v, fun hasked => ⟨hfound hasked, ?_⟩, ?_⟩
  · intro a ha b hb
    refine ⟨_, _, (hfound hasked a ha).1, Graph.successors_eq_targets (hasked b hb), ?_⟩
    rw [mem_sourcesAmong]
    exact and_iff_right hb
  · intro hclosed
    have hasked := fun u hu => (hclosed u hu).imp fun vs hvs => hvs.1
    have hends : ∀ u ∈ Graph.vertices x.graph, ∀ v ∈ Graph.targets x.graph u,
        v ∈ Graph.vertices x.graph := by
      intro u hu v hv
      obtain ⟨vs, hvs, hsub⟩ := hclosed u hu
      rw [Graph.targets_eq hvs] at hv
      exact hsub v hv
    refine ⟨_, _, fun v hv => ⟨(hfound hasked v hv).2, ?_⟩, sum_length_sourcesAmong hnodup hends⟩
    exact congrArg (Except.map List.length) (Graph.successors_eq_targets (hasked v hv))

end Indexed

/-- The vertices `1` and `2` have edges to `3`, from `2` even two; and `3` has one to itself. -/
def Adjacency.parallel : Adjacency Nat :=
  ⟨[(2, some [3, 1, 3]), (1, some [3]), (3, some [3])]⟩

/-- The same, but `1` cannot be asked for its successors, nor can `4`. -/
def Adjacency.mute : Adjacency Nat :=
  ⟨[(2, some [3, 1, 3]), (1, none), (3, some [3]), (4, none)]⟩

/-- Four edges enter `3`, which is asked twice. In the second graph, `1` refuses first, whatever is
asked. -/
theorem Adjacency.parallel_inverted :
    (((Indexed.ofGraph parallel).askAll [.predecessors 3]).predecessors 3).1 =
      .ok [2, 2, 1, 3] ∧
    (((Indexed.ofGraph parallel).askAll [.predecessors 3]).inDegree 3).1 = .ok 4 ∧
    (∃ entering leaving : Nat → Nat,
      (∀ v ∈ [2, 1, 3], ((Indexed.ofGraph parallel).inDegree v).1 = .ok (entering v) ∧
        (Indexed.ofGraph parallel).outDegree v = .ok (leaving v)) ∧
      ([2, 1, 3].map entering).sum = ([2, 1, 3].map leaving).sum) ∧
    ∀ v, (((Indexed.ofGraph mute).askAll [.inDegree 7]).predecessors v).1 =
      .error (.notFound 1) := by
  obtain ⟨-, hfound, -⟩ := Indexed.predecessors_invert_successors (g := parallel) (by decide)
    (fun _ => rfl) [.predecessors 3]
  obtain ⟨-, -, hsums⟩ := Indexed.predecessors_invert_successors (g := parallel) (by decide)
    (fun _ => rfl) []
  obtain ⟨hrefused, -⟩ := Indexed.predecessors_invert_successors (g := mute) (by decide)
    (fun _ => rfl) [.inDegree 7]
  have hanswers : ∀ v ∈ [2, 1, 3], Graph.successors parallel v =
      .ok (Graph.targets parallel v) := by decide
  have hclosed : ∀ v ∈ [2, 1, 3], ∀ w ∈ Graph.targets parallel v, w ∈ [2, 1, 3] := by decide
  have hthree := (hfound fun v hv => ⟨_, hanswers v hv⟩).1 3 (by decide)
  refine ⟨hthree.1, hthree.2, hsums fun v hv => ⟨_, hanswers v hv, hclosed v hv⟩, fun v => ?_⟩
  refine (hrefused [2] 1 [3, 4] _ rfl (fun w hw => ?_) rfl v).1
  rw [List.mem_singleton.1 hw]
  exact ⟨_, rfl⟩

/-! ## Vertices that are not there -/

/-- A question is refused just if it is asked of what is no vertex. -/
theorem EdgeList.ofVertex_eq_error_iff {α : Type u} (e : EdgeList V) (v : V) (answer : α) :
    e.ofVertex v answer = .error (.notFound v) ↔ v ∉ e.vertices := by
  unfold ofVertex
  by_cases hv : v ∈ e.vertices <;> simp [hv]

/-- **A linked graph refuses just the vertices that are not there,** and so does an index that finds
out the predecessors. -/
theorem LinkedGraph.refused_iff (changes : List (GraphChange V)) (v : V) :
    let g := LinkedGraph.ofChanges changes
    (g.predecessors v = .error (.notFound v) ↔ g.contains v = false) ∧
      ((g.bareIndex.predecessors v).1 = .error (.notFound v) ↔ g.contains v = false) := by
  intro g
  have h : g.Represents (EdgeList.ofChanges changes) := LinkedGraph.represents_ofChanges changes
  rw [h.predecessors_eq, h.predecessors_bareIndex, h.contains_eq, decide_eq_false_iff_not]
  exact ⟨EdgeList.ofVertex_eq_error_iff _ v _, EdgeList.ofVertex_eq_error_iff _ v _⟩

namespace Indexed

/-- **What is not there is refused, unless an edge leads there.** Take an index over any graph, and
make any calls, after which the graph does not keep its predecessors, and each of its vertices can
be asked for its successors.

* A vertex that is not listed is not found, neither when its predecessors are asked for nor the
  number of edges that enter it, just if it is no successor of a vertex. If it is one, both are told.
* So if all successors are vertices, and the graph contains what it lists, then a vertex is refused
  just if the graph does not contain it.
* A linked graph, which keeps both ends of its edges, refuses just what it does not contain after
  any changes, and so does an index over it that finds out the predecessors. -/
theorem absent_refused_iff [EditableGraph G V] {g : G} {calls : List (GraphCall V)}
    {x : Indexed G V} (hx : (ofGraph g).performAll calls = x)
    (hkept : ∀ v, Graph.predecessors? x.graph v = none)
    (hasked : ∀ u ∈ x.vertices, ∃ vs, x.successors u = .ok vs) :
    (∀ v ∉ x.vertices,
      ((x.predecessors v).1 = .error (.notFound v) ∧ (x.inDegree v).1 = .error (.notFound v) ↔
        ∀ u ∈ x.vertices, v ∉ Graph.targets x.graph u) ∧
      ∀ u ∈ x.vertices, v ∈ Graph.targets x.graph u → ∃ sources,
        (x.predecessors v).1 = .ok sources ∧ u ∈ sources ∧
          (x.inDegree v).1 = .ok sources.length) ∧
    (Graph.Closed x.graph → (∀ v, x.contains v = true ↔ v ∈ x.vertices) →
      ∀ v, x.contains v = false ↔
        (x.predecessors v).1 = .error (.notFound v) ∧
          (x.inDegree v).1 = .error (.notFound v)) ∧
    ∀ (changes : List (GraphChange V)) (v : V),
      let linked := LinkedGraph.ofChanges changes
      (linked.predecessors v = .error (.notFound v) ↔ linked.contains v = false) ∧
        ((linked.bareIndex.predecessors v).1 = .error (.notFound v) ↔
          linked.contains v = false) := by
  have hnew : x.UpToDate := hx ▸ ((upToDate_ofGraph g).performAll calls).2
  have hfound := fun v u hu hv =>
    hnew.predecessors_of_found hkept hasked (v := v) (.inr ⟨u, hu, hv⟩)
  have hrefused := fun v (hv : v ∉ x.vertices) =>
    hnew.predecessors_of_unmentioned hkept hasked hv
  refine ⟨fun v hv => ⟨⟨fun h u hu hedge => ?_, hrefused v hv⟩, fun u hu hedge => ?_⟩, ?_,
    LinkedGraph.refused_iff⟩
  · rw [(hfound v u hu hedge).1] at h
    cases h.1
  · obtain ⟨hpredecessors, hdegree⟩ := hfound v u hu hedge
    exact ⟨_, hpredecessors, mem_sourcesAmong.2 ⟨hu, hedge⟩, hdegree⟩
  · intro hclosed hcontains v
    rw [← Bool.not_eq_true, hcontains]
    constructor
    · intro hv
      refine hrefused v hv fun u hu hedge => hv ?_
      obtain ⟨vs, hvs, hsub⟩ := hclosed u hu
      rw [Graph.targets_eq hvs] at hedge
      exact hsub v hedge
    · rintro ⟨h, -⟩ hv
      rw [(hnew.predecessors_of_found hkept hasked (.inl hv)).1] at h
      cases h

end Indexed

/-- An index over a graph to which an edge from `1` to `2` was added, but not `2`. -/
def Adjacency.dangling : Indexed (Adjacency Nat) Nat :=
  (Indexed.ofGraph empty).performAll [.change (.add 1), .change (.connect 1 2)]

/-- The same with the edge removed again, after a question. -/
def Adjacency.severed : Indexed (Adjacency Nat) Nat :=
  (Indexed.ofGraph empty).performAll [.change (.add 1), .change (.connect 1 2),
    .ask (.inDegree 2), .change (.disconnect 1 2)]

/-- While the edge is there, `2` is found, but `3` is not; once it is removed, neither is `2`. -/
theorem Adjacency.dangling_found :
    (dangling.contains 2 = false ∧
      (∃ sources, (dangling.predecessors 2).1 = .ok sources ∧ 1 ∈ sources ∧
        (dangling.inDegree 2).1 = .ok sources.length)) ∧
    ((dangling.predecessors 3).1 = .error (.notFound 3) ∧
      (dangling.inDegree 3).1 = .error (.notFound 3)) ∧
    (severed.predecessors 2).1 = .error (.notFound 2) ∧
      (severed.inDegree 2).1 = .error (.notFound 2) := by
  have hasked : ∀ {x : Indexed (Adjacency Nat) Nat} (us : List Nat), x.vertices = us →
      (∀ u ∈ us, x.successors u = .ok (Graph.targets x.graph u)) →
      ∀ u ∈ x.vertices, ∃ vs, x.successors u = .ok vs :=
    fun us hus h u hu => ⟨_, h u (hus ▸ hu)⟩
  have hdangling : _ = dangling := rfl
  have hsevered : _ = severed := rfl
  obtain ⟨habsent, -⟩ :=
    Indexed.absent_refused_iff hdangling (fun _ => rfl) (hasked [1] rfl (by decide))
  obtain ⟨habsent', -⟩ :=
    Indexed.absent_refused_iff hsevered (fun _ => rfl) (hasked [1] rfl (by decide))
  have htwo := (habsent 2 (by decide)).2 1 (by decide) (by decide)
  have hthree := (habsent 3 (by decide)).1.2 (by decide)
  have htwo' := (habsent' 2 (by decide)).1.2 (by decide)
  exact ⟨⟨rfl, htwo⟩, hthree, htwo'⟩

end StateMachine
