/-
# A linked graph is a list of edges

A linked graph keeps its vertices and the two tables of links apart, and changes each of them in its
own way. `LinkedGraph.Represents` says what holds the three together: they are the vertices, the
targets and the sources of one list of edges. Every change keeps this, and comes to the same result
as the change of the list (`LinkedGraph.Represents.change`).

What is done to a table of links is described once for both of them: `Links.Holds` says which
vertices a table has and with which ends, and there is one lemma for each operation.
-/

import StateMachine.Graph.Linked
import StateMachine.Proofs.Graph.Change
import StateMachine.Proofs.Graph.EdgeList

namespace StateMachine

universe u

variable {V : Type u} [DecidableEq V]

namespace Links

/-- The table has just the given vertices, each with the ends that `f` gives. -/
def Holds (t : Links V) (vertices : List V) (f : V → List V) : Prop :=
  ∀ v, t.get? v = if v ∈ vertices then some (f v) else none

namespace Holds

/-- An empty table holds the ends of no vertices. -/
theorem empty (f : V → List V) : (empty : Links V).Holds [] f := fun _ => rfl

variable {t : Links V} {vertices : List V} {f f' : V → List V} (h : t.Holds vertices f) {v : V}

include h

/-- The table contains just the vertices it holds. -/
theorem contains_eq (v : V) : t.contains v = decide (v ∈ vertices) := by
  rw [contains, h v]
  by_cases hv : v ∈ vertices <;> simp [hv]

/-- The table answers with the ends of its vertices and finds nothing else. -/
theorem ends_eq (v : V) :
    t.ends v = if v ∈ vertices then .ok (f v) else .error (.notFound v) := by
  rw [ends, h v]
  by_cases hv : v ∈ vertices <;> simp [hv]

/-- What is not in the table counts as a vertex without ends, which is right if `f` gives it none. -/
theorem getD_get? (hf : v ∉ vertices → f v = []) : (t.get? v).getD [] = f v := by
  rw [h v]
  by_cases hv : v ∈ vertices
  · simp [hv]
  · simp [hv, hf hv]

/-- A further vertex comes without ends. -/
theorem insert (hf : f v = []) : (t.insert v []).Holds (vertices ++ [v]) f := by
  intro w
  rw [get?_insert, h w]
  by_cases hw : w = v
  · simp [hw, hf]
  · simp [hw]

/-- A vertex that goes is no end any more, if it is dropped wherever it was one. -/
theorem erase_drop {owners : List V} (howners : ∀ w, v ∈ f w → w ∈ owners)
    (hf' : ∀ w, w ≠ v → f' w = (f w).filter (· ≠ v)) :
    ((t.erase v).drop v owners).Holds (vertices.filter (· ≠ v)) f' := by
  intro w
  rw [get?_drop, get?_erase, h w]
  by_cases hw : w = v
  · simp [hw]
  · by_cases hmem : w ∈ vertices
    · by_cases howner : w ∈ owners
      · simp [hw, hmem, howner, hf' w hw]
      · -- A vertex that is not asked to drop `v` does not have it.
        have hkeep : f' w = f w := by
          rw [hf' w hw]
          refine List.filter_eq_self.2 fun x hx => ?_
          have hne : x ≠ v := fun e => howner (howners w (e ▸ hx))
          simpa using hne
        simp [hw, hmem, howner, hkeep]
    · simp [hw, hmem]

/-- The ends of one vertex are changed, and all others stay. -/
theorem modify {change : List V → List V} (hv : f' v = change (f v))
    (hf' : ∀ w, w ≠ v → f' w = f w) : (t.modify v change).Holds vertices f' := by
  intro w
  rw [get?_modify, h w]
  by_cases hw : w = v
  · subst hw
    by_cases hmem : w ∈ vertices <;> simp [hmem, hv]
  · simp [hw, hf' w hw]

end Holds
end Links

namespace LinkedGraph

/-- The three parts of the graph are those of the list of edges. -/
structure Represents (g : LinkedGraph V) (e : EdgeList V) : Prop where
  order : g.order = e.vertices
  targets : g.targets.Holds e.vertices e.targets
  sources : g.sources.Holds e.vertices e.sources

namespace Represents

/-- The empty linked graph represents the empty list of edges. -/
theorem empty : (empty : LinkedGraph V).Represents .empty :=
  ⟨rfl, .empty _, .empty _⟩

variable {g : LinkedGraph V} {e : EdgeList V} (h : g.Represents e)

include h

/-- Both graphs contain the same vertices. -/
theorem contains_eq (v : V) : g.contains v = decide (v ∈ e.vertices) := h.targets.contains_eq v

/-- A vertex is required to be in the list of vertices. -/
theorem require_eq (v : V) :
    g.require v = if v ∈ e.vertices then .ok () else .error (.notFound v) := by
  rw [require, h.contains_eq]
  simp

/-- Of two required vertices the first one that is missing is told. -/
theorem requireBoth_eq (a b : V) :
    g.requireBoth a b =
      if a ∉ e.vertices then .error (.notFound a)
      else if b ∉ e.vertices then .error (.notFound b)
      else .ok () := by
  rw [requireBoth, h.require_eq, h.require_eq]
  by_cases ha : a ∈ e.vertices <;> by_cases hb : b ∈ e.vertices <;> simp [ha, hb, Except.bind]

/-- Adding a vertex to both graphs, the one still represents the other. -/
theorem add (v : V) : (g.add v).Represents (e.add v) := by
  rw [LinkedGraph.add, h.contains_eq, EdgeList.add]
  by_cases hv : v ∈ e.vertices
  · simpa [hv] using h
  · simp only [hv, decide_false, Bool.false_eq_true, if_false, dif_neg, not_false_eq_true]
    constructor
    · simp [h.order]
    · exact h.targets.insert (EdgeList.targets_of_not_mem hv)
    · exact h.sources.insert (EdgeList.sources_of_not_mem hv)

/-- Removing a vertex from both graphs gives the same result, and the one still represents the
other. -/
theorem remove (v : V) :
    (g.remove v).1 = (e.remove v).1 ∧ (g.remove v).2.Represents (e.remove v).2 := by
  rw [LinkedGraph.remove, h.targets.ends_eq, EdgeList.remove]
  by_cases hv : v ∈ e.vertices
  · simp only [hv, if_true, true_and]
    rw [h.sources.getD_get? EdgeList.sources_of_not_mem]
    constructor
    · simp [h.order]
    · refine h.targets.erase_drop (fun w hw => EdgeList.mem_sources_iff_mem_targets.2 hw) ?_
      intro w hw
      refine endsAt_filter _ _ _ _ fun x _ hx => ?_
      simp [hx, hw]
    · refine h.sources.erase_drop (fun w hw => EdgeList.mem_sources_iff_mem_targets.1 hw) ?_
      intro w hw
      refine endsAt_filter _ _ _ _ fun x _ hx => ?_
      simp [hx, hw]
  · simpa [hv] using h

/-- Adding an edge to both graphs gives the same result, and the one still represents the other. -/
theorem connect (a b : V) :
    (g.connect a b).1 = (e.connect a b).1 ∧ (g.connect a b).2.Represents (e.connect a b).2 := by
  rw [LinkedGraph.connect, h.requireBoth_eq, EdgeList.connect,
    h.targets.getD_get? EdgeList.targets_of_not_mem]
  by_cases ha : a ∈ e.vertices
  · by_cases hb : b ∈ e.vertices
    · by_cases hab : (a, b) ∈ e.edges
      · simpa [ha, hb, hab, EdgeList.mem_targets] using h
      · simp only [ha, hb, hab, EdgeList.mem_targets, not_true_eq_false, if_false, dif_neg,
          not_false_eq_true, true_and]
        refine ⟨h.order, h.targets.modify ?_ ?_, h.sources.modify ?_ ?_⟩
        · simp [EdgeList.targets, endsAt_concat]
        · intro w hw
          simp [EdgeList.targets, endsAt_concat, hw]
        · simp [EdgeList.sources, endsAt_concat]
        · intro w hw
          simp [EdgeList.sources, endsAt_concat, hw]
    · simpa [ha, hb] using h
  · simpa [ha] using h

/-- Removing an edge from both graphs gives the same result, and the one still represents the other.
-/
theorem disconnect (a b : V) :
    (g.disconnect a b).1 = (e.disconnect a b).1 ∧
      (g.disconnect a b).2.Represents (e.disconnect a b).2 := by
  rw [LinkedGraph.disconnect, h.requireBoth_eq, EdgeList.disconnect, h.targets.ends_eq]
  by_cases ha : a ∈ e.vertices
  · by_cases hb : b ∈ e.vertices
    · by_cases hab : (a, b) ∈ e.edges
      · simp only [ha, hb, hab, EdgeList.mem_targets, not_true_eq_false, if_false, if_true,
          true_and]
        refine ⟨h.order, h.targets.modify ?_ ?_, h.sources.modify ?_ ?_⟩
        · refine (e.targets_erase (a, b) a).trans ?_
          rw [if_pos rfl, (e.nodup_targets a).erase_eq_filter]
          exact List.filter_congr fun x _ => by by_cases hx : x = b <;> simp [hx]
        · intro w hw
          exact (e.targets_erase (a, b) w).trans (if_neg hw)
        · exact (e.sources_erase (a, b) b).trans (if_pos rfl)
        · intro w hw
          exact (e.sources_erase (a, b) w).trans (if_neg hw)
      · simpa [ha, hb, hab, EdgeList.mem_targets] using h
    · simpa [ha, hb] using h
  · simpa [ha] using h

/-- **Every change comes to the same,** and the graph after it is that of the changed list. -/
theorem change (c : GraphChange V) :
    (EditableGraph.change g c).1 = (EditableGraph.change e c).1 ∧
      (EditableGraph.change g c).2.Represents (EditableGraph.change e c).2 := by
  cases c with
  | add v => exact ⟨rfl, h.add v⟩
  | remove v => exact h.remove v
  | connect a b => exact h.connect a b
  | disconnect a b => exact h.disconnect a b
  | clear => exact ⟨rfl, empty⟩

/-- The successors of a vertex are its targets in the list of edges. -/
theorem successors_eq (v : V) : g.successors v = e.ofVertex v (e.targets v) :=
  h.targets.ends_eq v

/-- The predecessors of a vertex are its sources in the list of edges. -/
theorem predecessors_eq (v : V) : g.predecessors v = e.ofVertex v (e.sources v) :=
  h.sources.ends_eq v

/-- The out-degree of a vertex is the number of its targets. -/
theorem outDegree_eq (v : V) : g.outDegree v = e.ofVertex v (e.targets v).length := by
  rw [outDegree, h.successors_eq, EdgeList.map_ofVertex]

/-- The in-degree of a vertex is the number of its sources. -/
theorem inDegree_eq (v : V) : g.inDegree v = e.ofVertex v (e.sources v).length := by
  rw [inDegree, h.predecessors_eq, EdgeList.map_ofVertex]

end Represents

/-- The graph answers every question as the list of edges does. -/
structure AnswersAs (g : LinkedGraph V) (e : EdgeList V) : Prop where
  vertices : g.vertices = e.vertices
  size : g.size = e.vertices.length
  contains : ∀ v, g.contains v = decide (v ∈ e.vertices)
  successors : ∀ v, g.successors v = e.ofVertex v (e.targets v)
  predecessors : ∀ v, g.predecessors v = e.ofVertex v (e.sources v)
  outDegree : ∀ v, g.outDegree v = e.ofVertex v (e.targets v).length
  inDegree : ∀ v, g.inDegree v = e.ofVertex v (e.sources v).length

/-- A linked graph answers all questions as the list of edges does that it represents. -/
theorem Represents.answersAs {g : LinkedGraph V} {e : EdgeList V} (h : g.Represents e) :
    g.AnswersAs e where
  vertices := h.order
  size := congrArg List.length h.order
  contains := h.contains_eq
  successors := h.successors_eq
  predecessors := h.predecessors_eq
  outDegree := h.outDegree_eq
  inDegree := h.inDegree_eq

/-- **A change that is refused changes nothing.** -/
theorem change_of_error {g : LinkedGraph V} {c : GraphChange V} {r : GraphError V}
    (h : (EditableGraph.change g c).1 = .error r) : (EditableGraph.change g c).2 = g := by
  cases c with
  | add v => cases h
  | remove v =>
    change (g.remove v).1 = .error r at h
    show (g.remove v).2 = g
    revert h
    fun_cases remove g v <;> simp
  | connect a b =>
    change (g.connect a b).1 = .error r at h
    show (g.connect a b).2 = g
    revert h
    fun_cases connect g a b <;> simp
  | disconnect a b =>
    change (g.disconnect a b).1 = .error r at h
    show (g.disconnect a b).2 = g
    revert h
    fun_cases disconnect g a b <;> simp
  | clear => cases h

/-- The linked graph after changes of the empty one. -/
def ofChanges (changes : List (GraphChange V)) : LinkedGraph V :=
  EditableGraph.changeAll empty changes

end LinkedGraph

/-- The list of edges after changes of the empty one. -/
def EdgeList.ofChanges (changes : List (GraphChange V)) : EdgeList V :=
  EditableGraph.changeAll empty changes

/-- **Whatever changes are made,** a linked graph has the vertices and the edges of the list to
which the same changes are made. -/
theorem LinkedGraph.represents_ofChanges (changes : List (GraphChange V)) :
    (LinkedGraph.ofChanges changes).Represents (EdgeList.ofChanges changes) :=
  EditableGraph.changeAll_simulation (fun _ _ c h => (h.change c).2) .empty changes

/-- **A linked graph is the list of its edges.** Make any changes to an empty linked graph and to an
empty list of edges.

* The graph answers every question as the list does: it has the vertices in the order in which they
  were added, and gives targets and sources in the order in which the edges were connected. A vertex
  that is not there, and no other, is not found.
* Each further change has the same result for both, and if it is refused, the graph is left as it
  was.
* A vertex is among the predecessors of another just if this one is among its successors. -/
theorem LinkedGraph.refines_edgeList (changes : List (GraphChange V)) :
    (LinkedGraph.ofChanges changes).AnswersAs (EdgeList.ofChanges changes) ∧
    (∀ c, (EditableGraph.change (LinkedGraph.ofChanges changes) c).1 =
        (EditableGraph.change (EdgeList.ofChanges changes) c).1 ∧
      ∀ r, (EditableGraph.change (LinkedGraph.ofChanges changes) c).1 = .error r →
        (EditableGraph.change (LinkedGraph.ofChanges changes) c).2 =
          LinkedGraph.ofChanges changes) ∧
    ∀ a b, (∃ l, (LinkedGraph.ofChanges changes).predecessors a = .ok l ∧ b ∈ l) ↔
      ∃ l, (LinkedGraph.ofChanges changes).successors b = .ok l ∧ a ∈ l := by
  have hrepresents := represents_ofChanges changes
  generalize LinkedGraph.ofChanges changes = g at *
  generalize EdgeList.ofChanges changes = e at *
  refine ⟨hrepresents.answersAs, ?_, ?_⟩
  · intro c
    exact ⟨(hrepresents.change c).1, fun r hr => change_of_error hr⟩
  · intro a b
    have hpredecessors : (∃ l, g.predecessors a = .ok l ∧ b ∈ l) ↔ b ∈ e.sources a := by
      rw [hrepresents.predecessors_eq]
      exact EdgeList.exists_ofVertex_iff EdgeList.sources_of_not_mem
    have hsuccessors : (∃ l, g.successors b = .ok l ∧ a ∈ l) ↔ a ∈ e.targets b := by
      rw [hrepresents.successors_eq]
      exact EdgeList.exists_ofVertex_iff EdgeList.targets_of_not_mem
    rw [hpredecessors, hsuccessors, EdgeList.mem_sources_iff_mem_targets]

/-- The vertex `1` gets a loop and edges in both directions, is removed and added again. -/
def LinkedGraph.readded : List (GraphChange Nat) :=
  [.add 1, .add 2, .add 3, .connect 1 1, .connect 3 1, .connect 2 3, .connect 1 3, .remove 1,
    .add 1, .connect 1 2]

/-- The vertex comes back, last, without the edges it had, and the one from `1` to `3` cannot be
removed any more. -/
theorem LinkedGraph.readded_refines :
    (LinkedGraph.ofChanges readded).AnswersAs (EdgeList.ofChanges readded) ∧
    (EdgeList.ofChanges readded).vertices = [2, 3, 1] ∧
    (EdgeList.ofChanges readded).edges = [(2, 3), (1, 2)] ∧
    EditableGraph.change (LinkedGraph.ofChanges readded) (.disconnect 1 3) =
      (.error (.missingEdge 1 3), LinkedGraph.ofChanges readded) ∧
    ∃ l, (LinkedGraph.ofChanges readded).predecessors 2 = .ok l ∧ 1 ∈ l := by
  obtain ⟨hanswers, hchanges, hmirror⟩ := refines_edgeList readded
  have hrefused : (EditableGraph.change (LinkedGraph.ofChanges readded) (.disconnect 1 3)).1 =
      .error (.missingEdge 1 3) := (hchanges _).1.trans (by decide)
  have hkept := (hchanges _).2 _ hrefused
  have hsuccessors : (LinkedGraph.ofChanges readded).successors 1 = .ok [2] :=
    (hanswers.successors 1).trans (by decide)
  exact ⟨hanswers, by decide, by decide, Prod.ext hrefused hkept,
    (hmirror 2 1).2 ⟨[2], hsuccessors, List.mem_singleton_self 2⟩⟩

end StateMachine
