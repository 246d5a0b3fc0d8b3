/-
# What a linked graph keeps is what a search finds

A linked graph keeps both ends of its edges and the number of its vertices. `BareGraph` hides all
this: only the vertices and their successors can be asked for, and everything else is found out by
an index over it. The answers are the same, except that predecessors come in the order of the
vertices and not in that in which they were connected. Where a graph does not say how it is
cleared, its vertices are removed one after the other; this leaves a linked graph empty, too.
-/

import StateMachine.Proofs.Graph.Inverse
import StateMachine.Proofs.Graph.Linked

namespace StateMachine

universe u v

/-- A graph of which only the vertices and their successors are known. -/
structure BareGraph (G : Type u) where
  graph : G

namespace BareGraph

variable {G : Type u} {V : Type v} [DecidableEq V]

instance [Graph G V] : Graph (BareGraph G) V where
  vertices g := Graph.vertices g.graph
  successors g := Graph.successors g.graph

/-- The result of a change, with the graph after it hidden as before. -/
def ofEdited (r : Edited G V) : Edited (BareGraph G) V := r.map id mk

instance [EditableGraph G V] : EditableGraph (BareGraph G) V where
  toGraph := inferInstance
  add g v := ⟨EditableGraph.add g.graph v⟩
  remove g v := ofEdited (EditableGraph.remove g.graph v)
  connect g a b := ofEdited (EditableGraph.connect g.graph a b)
  disconnect g a b := ofEdited (EditableGraph.disconnect g.graph a b)

/-- Clearing a graph that does not say how removes its vertices one after the other. -/
theorem graph_clear [EditableGraph G V] (g : BareGraph G) :
    (EditableGraph.clear g).graph =
      EditableGraph.changeAll g.graph ((Graph.vertices g.graph).map .remove) := by
  have hremove : ∀ (l : List V) (g : BareGraph G),
      (l.foldl (fun g v => (EditableGraph.remove g v).2) g).graph =
        EditableGraph.changeAll g.graph (l.map .remove) := by
    intro l
    induction l with
    | nil => exact fun _ => rfl
    | cons v l ih => exact fun g => ih _
  exact hremove _ g

end BareGraph

variable {V : Type u} [DecidableEq V]

namespace EdgeList

/-- The vertices after some of them have been removed. -/
theorem vertices_removeAll (e : EdgeList V) (l : List V) :
    (EditableGraph.changeAll e (l.map .remove)).vertices = e.vertices.filter (· ∉ l) := by
  induction l generalizing e with
  | nil => simp [EditableGraph.changeAll]
  | cons v l ih =>
    have hremove : (e.remove v).2.vertices = e.vertices.filter (· ≠ v) := by
      unfold remove
      split
      · rfl
      · rename_i hv
        exact (List.filter_eq_self.2 fun w hw => by simpa using fun h : w = v => hv (h ▸ hw)).symm
    refine (ih (e.remove v).2).trans ?_
    rw [hremove, List.filter_filter]
    refine List.filter_congr fun w _ => ?_
    simp [Bool.and_comm]

/-- The sources of a vertex, found by going through the targets of all vertices. -/
theorem sourcesAmong_targets (e : EdgeList V) (v : V) :
    sourcesAmong e.targets e.vertices v = e.vertices.filter fun u => v ∈ e.targets u := by
  have hcount : ∀ u, List.replicate ((e.targets u).count v) u =
      if v ∈ e.targets u then [u] else [] := by
    intro u
    rw [(e.nodup_targets u).count]
    split <;> rfl
  simp only [sourcesAmong, hcount]
  induction e.vertices with
  | nil => rfl
  | cons u vertices ih =>
    rw [List.flatMap_cons, ih, List.filter_cons]
    by_cases hu : v ∈ e.targets u <;> simp [hu]

/-- **They are the sources in another order.** -/
theorem sourcesAmong_perm (e : EdgeList V) (v : V) :
    (sourcesAmong e.targets e.vertices v).Perm (e.sources v) := by
  rw [sourcesAmong_targets]
  refine (List.perm_ext_iff_of_nodup (e.vertices_nodup.filter _) (e.nodup_sources v)).2 fun u => ?_
  simp only [List.mem_filter, decide_eq_true_eq, mem_targets, mem_sources]
  exact ⟨And.right, fun h => ⟨(e.ends_mem _ h).1, h⟩⟩

end EdgeList

namespace LinkedGraph

/-- An index over the graph that can ask for its vertices and their successors only. -/
def bareIndex (g : LinkedGraph V) : Indexed (BareGraph (LinkedGraph V)) V := .ofGraph ⟨g⟩

namespace Represents

variable {g : LinkedGraph V} {e : EdgeList V} (h : g.Represents e)

include h

/-- A graph without vertices has nothing in its tables. -/
theorem eq_empty (he : e.vertices = []) : g = .empty := by
  have hnone : ∀ {t : Links V} {f : V → List V}, t.Holds e.vertices f → t = .empty := by
    intro t f ht
    refine Links.eq_empty_of_get? fun v => ?_
    rw [ht v, he]
    rfl
  obtain ⟨order, targets, sources⟩ := g
  have horder : order = [] := h.order.trans he
  have htargets : targets = .empty := hnone h.targets
  have hsources : sources = .empty := hnone h.sources
  rw [horder, htargets, hsources]
  rfl

/-- **Removing the vertices one after the other leaves nothing.** -/
theorem changeAll_remove_vertices :
    EditableGraph.changeAll g (g.vertices.map .remove) = .empty := by
  have hremoved : (EditableGraph.changeAll g (g.vertices.map .remove)).Represents
      (EditableGraph.changeAll e (g.vertices.map .remove)) :=
    EditableGraph.changeAll_simulation (fun _ _ c h => (h.change c).2) h _
  refine hremoved.eq_empty ?_
  rw [EdgeList.vertices_removeAll]
  have hvertices : g.vertices = e.vertices := h.order
  refine List.filter_eq_nil_iff.2 fun v hv => ?_
  simpa [hvertices] using hv

/-- **What a search finds of the predecessors** of a vertex. -/
theorem searchPredecessors_bare (v : V) :
    Graph.searchPredecessors (BareGraph.mk g) v =
      e.ofVertex v (sourcesAmong e.targets e.vertices v) := by
  have hvertices : Graph.vertices (BareGraph.mk g) = e.vertices := h.order
  have hsuccessors : ∀ u ∈ Graph.vertices (BareGraph.mk g),
      Graph.successors (BareGraph.mk g) u = .ok (e.targets u) := by
    intro u hu
    have hmem : u ∈ e.vertices := hvertices ▸ hu
    exact (h.successors_eq u).trans (if_pos hmem)
  -- Only vertices occur among successors, so only vertices are in the index.
  have hclosed : (v ∈ e.vertices ∨ ∃ u ∈ e.vertices, v ∈ e.targets u) ↔ v ∈ e.vertices := by
    refine ⟨?_, .inl⟩
    rintro (hv | ⟨u, -, hu⟩)
    · exact hv
    · exact (e.ends_mem _ (EdgeList.mem_targets.1 hu)).2
  rw [Graph.searchPredecessors_eq rfl hsuccessors, hvertices, EdgeList.ofVertex]
  simp only [hclosed]

/-- The index of the bare graph finds the predecessors in the order of the vertices. -/
theorem predecessors_bareIndex (v : V) :
    (g.bareIndex.predecessors v).1 = e.ofVertex v (sourcesAmong e.targets e.vertices v) :=
  ((Indexed.upToDate_ofGraph _).predecessors v).1.trans (h.searchPredecessors_bare v)

/-- The index of the bare graph counts the same predecessors as the graph itself. -/
theorem inDegree_bareIndex (v : V) : (g.bareIndex.inDegree v).1 = g.inDegree v := by
  show (g.bareIndex.predecessors v).1.map List.length = g.inDegree v
  have hlength := (e.sourcesAmong_perm v).length_eq
  rw [h.predecessors_bareIndex, h.inDegree_eq, EdgeList.map_ofVertex, hlength]

/-- The bare graph contains the same vertices. -/
theorem contains_bareIndex (v : V) : g.bareIndex.contains v = g.contains v := by
  have hlisted : g.bareIndex.contains v = decide (v ∈ g.order) := rfl
  rw [hlisted, h.order, h.contains_eq]

end Represents

end LinkedGraph

/-- **What a linked graph keeps is what a search finds.** Make any changes to an empty linked graph,
and take an index over it that can ask for vertices and successors only.

* Whether a vertex is there, the number of vertices and the degrees are found to be those that the
  graph itself tells, for every vertex, whether it is there or not; and an index over the graph
  itself tells them, too.
* The predecessors that are found are those that the graph tells, in the order of the vertices; and
  where the graph refuses, because the vertex is not there, so does the search.
* Removing one vertex after the other leaves the graph as clearing it does: empty. -/
theorem LinkedGraph.found_eq_native (changes : List (GraphChange V)) :
    let g : LinkedGraph V := .ofChanges changes
    let native : Indexed (LinkedGraph V) V := .ofGraph g
    (∀ v, g.bareIndex.contains v = g.contains v ∧ native.contains v = g.contains v) ∧
    (g.bareIndex.getCount.1 = g.size ∧ native.getCount.1 = g.size) ∧
    (∀ v, (g.bareIndex.inDegree v).1 = g.inDegree v ∧ (native.inDegree v).1 = g.inDegree v) ∧
    (∀ v, g.bareIndex.outDegree v = g.outDegree v ∧ native.outDegree v = g.outDegree v) ∧
    (∀ v, match g.predecessors v with
      | .ok kept => ∃ found, (g.bareIndex.predecessors v).1 = .ok found ∧ found.Perm kept ∧
          found.Sublist g.vertices
      | .error e => e = .notFound v ∧ (g.bareIndex.predecessors v).1 = .error e) ∧
    (EditableGraph.clear (BareGraph.mk g)).graph = EditableGraph.clear g ∧
    EditableGraph.clear g = .empty := by
  intro g native
  have h : g.Represents (EdgeList.ofChanges changes) := LinkedGraph.represents_ofChanges changes
  -- From here on, only that the edges are represented is used of the changes.
  generalize EdgeList.ofChanges changes = e at h
  refine ⟨fun v => ⟨h.contains_bareIndex v, rfl⟩, ⟨rfl, rfl⟩,
    fun v => ⟨h.inDegree_bareIndex v, rfl⟩, fun v => ⟨rfl, rfl⟩, ?_, ?_, rfl⟩
  · intro v
    rw [h.predecessors_eq, h.predecessors_bareIndex]
    by_cases hv : v ∈ e.vertices
    · have hsublist : (sourcesAmong e.targets e.vertices v).Sublist g.order := by
        rw [h.order, e.sourcesAmong_targets]
        exact List.filter_sublist
      simp only [EdgeList.ofVertex, hv, if_true]
      exact ⟨_, rfl, e.sourcesAmong_perm v, hsublist⟩
    · simp [EdgeList.ofVertex, hv]
  · exact (BareGraph.graph_clear _).trans h.changeAll_remove_vertices

/-- Edges into `2` that were connected from the last vertex first. -/
example :
    let g := LinkedGraph.ofChanges [.add 1, .add 2, .add 3, .connect 3 2, .connect 1 2]
    g.predecessors 2 = .ok [3, 1] ∧ (g.bareIndex.predecessors 2).1 = .ok [1, 3] := by
  decide

end StateMachine
