/-
# The edges of a graph by their targets

The index over a graph is filled by going through the successors of all vertices. What it then holds
for a vertex is told without going through them step by step (`sourcesAmong`): the vertices in their
order, each as often as the vertex occurs among its successors. A vertex is in the index if it is
listed or occurs among successors (`Graph.exists_inverse`).
-/

import StateMachine.Proofs.Graph.Index

namespace StateMachine

universe u v

variable {G : Type u} {V : Type v} [DecidableEq V]

/-- The given vertices in their order, each as often as `v` occurs among its targets. -/
def sourcesAmong (targets : V → List V) (vertices : List V) (v : V) : List V :=
  vertices.flatMap fun u => List.replicate ((targets u).count v) u

/-- A vertex that is nobody's target has no sources. -/
theorem sourcesAmong_eq_nil {targets : V → List V} {vertices : List V} {v : V}
    (h : ¬ ∃ u ∈ vertices, v ∈ targets u) : sourcesAmong targets vertices v = [] := by
  refine List.flatMap_eq_nil_iff.2 fun u hu => ?_
  have hcount : (targets u).count v = 0 :=
    List.count_eq_zero_of_not_mem fun hv => h ⟨u, hu, hv⟩
  rw [hcount, List.replicate_zero]

/-- The edges from many vertices, one vertex after the other. -/
theorem Links.get?_foldl_pushAll (t : Links V) (targets : V → List V) (vertices : List V) (v : V) :
    (vertices.foldl (fun t u => t.pushAll (targets u) u) t).get? v =
      if ∃ u ∈ vertices, v ∈ targets u then
        some ((t.get? v).getD [] ++ sourcesAmong targets vertices v)
      else t.get? v := by
  induction vertices generalizing t with
  | nil => simp
  | cons u vertices ih =>
    have hsources : sourcesAmong targets (u :: vertices) v =
        List.replicate ((targets u).count v) u ++ sourcesAmong targets vertices v := rfl
    rw [List.foldl_cons, ih, get?_pushAll, hsources]
    by_cases hu : v ∈ targets u
    · by_cases hrest : ∃ u ∈ vertices, v ∈ targets u
      · simp [hu, hrest]
      · simp [hu, hrest, sourcesAmong_eq_nil hrest]
    · simp [hu, List.count_eq_zero_of_not_mem hu]

namespace Graph

variable [Graph G V] {g : G} {targets : V → List V}

/-- Going through vertices of which each can be asked for its successors. -/
theorem foldlM_successors {us : List V} (h : ∀ u ∈ us, successors g u = .ok (targets u))
    (t : Links V) :
    us.foldlM (fun t u => (successors g u).map fun targets => t.pushAll targets u) t =
      .ok (us.foldl (fun t u => t.pushAll (targets u) u) t) := by
  induction us generalizing t with
  | nil => rfl
  | cons u us ih =>
    rw [List.foldlM_cons, h u List.mem_cons_self]
    exact ih (fun w hw => h w (List.mem_cons_of_mem _ hw)) _

/-- A vertex that cannot be asked is the last one that is asked. -/
theorem foldlM_refused {u : V} {e : GraphError V} (hu : successors g u = .error e) (us : List V)
    (t : Links V) :
    (u :: us).foldlM (fun t u => (successors g u).map fun targets => t.pushAll targets u) t =
      .error e := by
  rw [List.foldlM_cons, hu]
  rfl

/-- **The index holds each vertex that is listed or occurs among successors,** with its sources. -/
theorem exists_inverse (h : ∀ u ∈ vertices g, successors g u = .ok (targets u)) :
    ∃ inverse, Graph.inverse g = .ok inverse ∧ ∀ v, inverse.get? v =
      if v ∈ vertices g ∨ ∃ u ∈ vertices g, v ∈ targets u then
        some (sourcesAmong targets (vertices g) v)
      else none := by
  refine ⟨_, foldlM_successors h _, fun v => ?_⟩
  rw [Links.get?_foldl_pushAll, Links.get?_ofVertices]
  by_cases hlisted : v ∈ vertices g
  · by_cases htarget : ∃ u ∈ vertices g, v ∈ targets u
    · simp [hlisted, htarget]
    · simp [hlisted, htarget, sourcesAmong_eq_nil htarget]
  · simp [hlisted]

/-- **What a search finds of the predecessors,** if all vertices can be asked for their successors. A
vertex is found if it is listed or occurs among successors. -/
theorem searchPredecessors_eq {v : V} (hkept : predecessors? g v = none)
    (h : ∀ u ∈ vertices g, successors g u = .ok (targets u)) :
    searchPredecessors g v =
      if v ∈ vertices g ∨ ∃ u ∈ vertices g, v ∈ targets u then
        .ok (sourcesAmong targets (vertices g) v)
      else .error (.notFound v) := by
  obtain ⟨inverse, hinverse, hget⟩ := exists_inverse h
  rw [searchPredecessors, hkept, hinverse]
  change inverse.ends v = _
  rw [Links.ends, hget]
  by_cases hv : v ∈ vertices g ∨ ∃ u ∈ vertices g, v ∈ targets u
  · rw [if_pos hv, if_pos hv]
  · rw [if_neg hv, if_neg hv]

/-- If some vertex cannot be asked, the search comes to the refusal of the first one. -/
theorem searchPredecessors_of_refused {v u : V} {before after : List V} {e : GraphError V}
    (hkept : predecessors? g v = none) (hsplit : vertices g = before ++ u :: after)
    (hbefore : ∀ w ∈ before, successors g w = .ok (targets w)) (hu : successors g u = .error e) :
    searchPredecessors g v = .error e := by
  have hinverse : Graph.inverse g = .error e := by
    rw [Graph.inverse, hsplit, List.foldlM_append, foldlM_successors hbefore]
    exact foldlM_refused hu after _
  rw [searchPredecessors, hkept, hinverse]
  rfl

end Graph
end StateMachine
