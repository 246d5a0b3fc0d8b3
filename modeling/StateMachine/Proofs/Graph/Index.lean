/-
# An index is never out of date

An indexed graph keeps what it has found out, and forgets it with every change. So whatever is asked
and changed, in whatever order, and whatever is refused on the way, the index holds nothing but what
would be found out anew (`Indexed.UpToDate`): every call keeps this, and is answered from the graph
alone (`Indexed.UpToDate.perform`).

`Graph.answer` gives the answers without any index.
-/

import StateMachine.Graph.Indexed
import StateMachine.Proofs.Graph.Change

namespace StateMachine

universe u v

/-- A question about a graph. -/
inductive GraphQuestion (V : Type v) where
  | vertices
  | successors (vertex : V)
  | contains (vertex : V)
  | predecessors (vertex : V)
  | count
  | inDegree (vertex : V)
  | outDegree (vertex : V)
  deriving DecidableEq, Repr

/-- What one may ask of a graph: to answer a question, or to be changed. -/
inductive GraphCall (V : Type v) where
  | ask (question : GraphQuestion V)
  | change (change : GraphChange V)
  deriving DecidableEq, Repr

/-- What a graph gives back. -/
inductive GraphAnswer (V : Type v) where
  | vertices (vertices : List V)
  | verdict (verdict : Bool)
  | count (number : Nat)
  | ends (ends : GraphResult V (List V))
  | degree (degree : GraphResult V Nat)
  | changed (result : GraphResult V Unit)

/-- The changes among calls, in their order. -/
def GraphCall.changes {V : Type v} (calls : List (GraphCall V)) : List (GraphChange V) :=
  calls.filterMap fun
    | .ask _ => none
    | .change c => some c

/-- The changes among the calls of two lists are those of the one and then those of the other. -/
theorem GraphCall.changes_append {V : Type v} (calls later : List (GraphCall V)) :
    changes (calls ++ later) = changes calls ++ changes later :=
  List.filterMap_append

variable {G : Type u} {V : Type v} [DecidableEq V]

namespace Graph

variable [Graph G V]

/-- The sources of the edges that enter a vertex, from a search through all edges if the graph does
not keep them. -/
def searchPredecessors (g : G) (v : V) : GraphResult V (List V) :=
  match predecessors? g v with
  | some answer => answer
  | none => (inverse g).bind fun inverse => inverse.ends v

/-- The number of vertices, counted if the graph does not keep it. -/
def searchCount (g : G) : Nat := (count? g).getD (vertices g).length

/-- The answer to a question, from the graph alone. -/
def answer (g : G) : GraphQuestion V → GraphAnswer V
  | .vertices => .vertices (vertices g)
  | .successors v => .ends (successors g v)
  | .contains v => .verdict (contains g v)
  | .predecessors v => .ends (searchPredecessors g v)
  | .count => .count (searchCount g)
  | .inDegree v => .degree ((searchPredecessors g v).map List.length)
  | .outDegree v => .degree ((successors g v).map List.length)

end Graph

namespace Indexed

section Questions

variable [Graph G V]

/-- Asks a question. -/
def ask (x : Indexed G V) : GraphQuestion V → GraphAnswer V × Indexed G V
  | .vertices => (.vertices x.vertices, x)
  | .successors v => (.ends (x.successors v), x)
  | .contains v => (.verdict (x.contains v), x)
  | .predecessors v => ((x.predecessors v).map .ends id)
  | .count => (x.getCount.map .count id)
  | .inDegree v => ((x.inDegree v).map .degree id)
  | .outDegree v => (.degree (x.outDegree v), x)

/-- What the index holds is what would be found out anew. -/
structure UpToDate (x : Indexed G V) : Prop where
  inverse : ∀ inverse, x.inverse = some inverse → Graph.inverse x.graph = .ok inverse
  count : ∀ n, x.count = some n → n = (Graph.vertices x.graph).length

/-- A fresh index has kept nothing yet, so nothing of it is out of date. -/
theorem upToDate_ofGraph (g : G) : (ofGraph g).UpToDate := ⟨nofun, nofun⟩

namespace UpToDate

variable {x : Indexed G V} (h : x.UpToDate)

include h

/-- The edges by their targets are those of a search, and a search that fails leaves the index as it
is. -/
theorem getInverse :
    x.getInverse.1 = Graph.inverse x.graph ∧ x.getInverse.2.graph = x.graph ∧
      x.getInverse.2.UpToDate := by
  unfold Indexed.getInverse
  split
  · rename_i inverse hx
    exact ⟨(h.inverse inverse hx).symm, rfl, h⟩
  · split
    · rename_i inverse hg
      refine ⟨hg.symm, rfl, ?_, h.count⟩
      rintro inverse' ⟨⟩
      exact hg
    · rename_i e hg
      exact ⟨hg.symm, rfl, h⟩

/-- Asking for predecessors gives what a search of the graph gives, and leaves the index up to date
for the same graph. -/
theorem predecessors (v : V) :
    (x.predecessors v).1 = Graph.searchPredecessors x.graph v ∧
      (x.predecessors v).2.graph = x.graph ∧ (x.predecessors v).2.UpToDate := by
  unfold Indexed.predecessors Graph.searchPredecessors
  cases hkept : Graph.predecessors? x.graph v with
  | some answer => exact ⟨rfl, rfl, h⟩
  | none =>
    obtain ⟨hinverse, hgraph, hnext⟩ := h.getInverse
    rw [← hinverse]
    generalize x.getInverse = found at *
    obtain ⟨answer, x'⟩ := found
    cases answer with
    | error e => exact ⟨rfl, hgraph, hnext⟩
    | ok inverse => exact ⟨rfl, hgraph, hnext⟩

/-- Asking for the number of vertices gives what counting gives, and leaves the index up to date for
the same graph. -/
theorem getCount :
    x.getCount.1 = Graph.searchCount x.graph ∧ x.getCount.2.graph = x.graph ∧
      x.getCount.2.UpToDate := by
  unfold Indexed.getCount Graph.searchCount
  cases hkept : Graph.count? x.graph with
  | some n => exact ⟨rfl, rfl, h⟩
  | none =>
    cases hcount : x.count with
    | some n => exact ⟨h.count n hcount, rfl, h⟩
    | none =>
      refine ⟨rfl, rfl, h.inverse, ?_⟩
      rintro n ⟨⟩
      rfl

/-- **A question is answered from the graph,** which it does not change. -/
theorem ask (q : GraphQuestion V) :
    (x.ask q).1 = Graph.answer x.graph q ∧ (x.ask q).2.graph = x.graph ∧ (x.ask q).2.UpToDate := by
  cases q with
  | vertices => exact ⟨rfl, rfl, h⟩
  | successors v => exact ⟨rfl, rfl, h⟩
  | contains v => exact ⟨rfl, rfl, h⟩
  | outDegree v => exact ⟨rfl, rfl, h⟩
  | predecessors v =>
    obtain ⟨hanswer, hnext⟩ := h.predecessors v
    exact ⟨congrArg GraphAnswer.ends hanswer, hnext⟩
  | inDegree v =>
    obtain ⟨hanswer, hnext⟩ := h.predecessors v
    refine ⟨?_, hnext⟩
    show GraphAnswer.degree ((x.predecessors v).1.map List.length) = _
    rw [hanswer]
    rfl
  | count =>
    obtain ⟨hanswer, hnext⟩ := h.getCount
    exact ⟨congrArg GraphAnswer.count hanswer, hnext⟩

end UpToDate
end Questions

section Calls

variable [EditableGraph G V]

/-- Makes a change. -/
def change (x : Indexed G V) : GraphChange V → Edited (Indexed G V) V
  | .add v => (.ok (), x.add v)
  | .remove v => x.remove v
  | .connect a b => x.connect a b
  | .disconnect a b => x.disconnect a b
  | .clear => (.ok (), x.clear)

/-- Answers a question or makes a change. -/
def perform (x : Indexed G V) : GraphCall V → GraphAnswer V × Indexed G V
  | .ask q => x.ask q
  | .change c => (x.change c).map .changed id

/-- The indexed graph after calls, the first one first. -/
def performAll (x : Indexed G V) (calls : List (GraphCall V)) : Indexed G V :=
  calls.foldl (fun x call => (x.perform call).2) x

/-- **A change forgets the index.** -/
theorem change_eq (x : Indexed G V) (c : GraphChange V) :
    x.change c =
      ((EditableGraph.change x.graph c).1, ofGraph (EditableGraph.change x.graph c).2) := by
  cases c <;> rfl

namespace UpToDate

variable {x : Indexed G V} (h : x.UpToDate)

include h

/-- **Every call is answered from the graph,** and does to the graph what it asks for. -/
theorem perform (call : GraphCall V) :
    (x.perform call).1 = ((ofGraph x.graph).perform call).1 ∧
      (x.perform call).2.graph = EditableGraph.changeAll x.graph (GraphCall.changes [call]) ∧
      (x.perform call).2.UpToDate := by
  cases call with
  | ask q =>
    obtain ⟨hanswer, hgraph, hnext⟩ := h.ask q
    exact ⟨hanswer.trans ((upToDate_ofGraph x.graph).ask q).1.symm, hgraph, hnext⟩
  | change c =>
    have hnext : (x.perform (.change c)).2 = ofGraph (EditableGraph.change x.graph c).2 :=
      congrArg Prod.snd (x.change_eq c)
    refine ⟨?_, ?_, ?_⟩
    · have hanswer := congrArg Prod.fst (x.change_eq c)
      have hfresh := congrArg Prod.fst ((ofGraph x.graph).change_eq c)
      exact congrArg GraphAnswer.changed (hanswer.trans hfresh.symm)
    · rw [hnext]
      rfl
    · rw [hnext]
      exact upToDate_ofGraph _

/-- After any calls the graph is as the changes among them have left it, and the index is up to
date. -/
theorem performAll (calls : List (GraphCall V)) :
    (x.performAll calls).graph = EditableGraph.changeAll x.graph (GraphCall.changes calls) ∧
      (x.performAll calls).UpToDate := by
  induction calls generalizing x with
  | nil => exact ⟨rfl, h⟩
  | cons call calls ih =>
    obtain ⟨-, hgraph, hnext⟩ := h.perform call
    obtain ⟨hgraph', hnext'⟩ := ih hnext
    refine ⟨?_, hnext'⟩
    have hcons : GraphCall.changes (call :: calls) =
        GraphCall.changes [call] ++ GraphCall.changes calls :=
      GraphCall.changes_append [call] calls
    rw [hcons, EditableGraph.changeAll_append, ← hgraph]
    exact hgraph'

end UpToDate

/-- **What an index holds is never out of date.** Take any graph under a new index, and make any
calls.

* The graph is then as the changes among the calls have left it.
* Any further call comes to what it would come to under a new index over this graph, be it an
  answer, a refusal or the result of a change.
* If a question more is asked on the way, all later calls come to the same. -/
theorem never_out_of_date (g : G) (calls : List (GraphCall V)) :
    ((ofGraph g).performAll calls).graph = EditableGraph.changeAll g (GraphCall.changes calls) ∧
    (∀ call, (((ofGraph g).performAll calls).perform call).1 =
      ((ofGraph ((ofGraph g).performAll calls).graph).perform call).1) ∧
    ∀ question later call,
      (((ofGraph g).performAll (calls ++ .ask question :: later)).perform call).1 =
        (((ofGraph g).performAll (calls ++ later)).perform call).1 := by
  have hnew : (ofGraph g).UpToDate := upToDate_ofGraph g
  refine ⟨(hnew.performAll calls).1, ?_, ?_⟩
  · intro call
    exact ((hnew.performAll calls).2.perform call).1
  · intro question later call
    obtain ⟨hgraph, hasked⟩ := hnew.performAll (calls ++ .ask question :: later)
    obtain ⟨hgraph', hunasked⟩ := hnew.performAll (calls ++ later)
    have hchanges : GraphCall.changes (calls ++ .ask question :: later) =
        GraphCall.changes (calls ++ later) := by
      rw [GraphCall.changes_append, GraphCall.changes_append]
      rfl
    rw [(hasked.perform call).1, (hunasked.perform call).1, hgraph, hgraph', hchanges]

end Calls
end Indexed
end StateMachine
