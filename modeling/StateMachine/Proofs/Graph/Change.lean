/-
# Changes of a graph, one after the other

A change is asked of any editable graph alike: `EditableGraph.change` makes one, and
`EditableGraph.changeAll` makes many, the first one first. Two graphs of different kinds to which
the same changes are made stay related as they were if each change keeps the relation
(`EditableGraph.changeAll_simulation`).
-/

import StateMachine.Graph.Basic

namespace StateMachine

universe u v w

/-- A change that can be made to a graph. -/
inductive GraphChange (V : Type v) where
  | add (vertex : V)
  | remove (vertex : V)
  | connect (source target : V)
  | disconnect (source target : V)
  | clear
  deriving DecidableEq, Repr

namespace EditableGraph

variable {G : Type u} {V : Type v} [DecidableEq V] [EditableGraph G V]

/-- Makes a change. Adding a vertex and clearing the graph are never refused. -/
def change (g : G) : GraphChange V → Edited G V
  | .add v => (.ok (), add g v)
  | .remove v => remove g v
  | .connect a b => connect g a b
  | .disconnect a b => disconnect g a b
  | .clear => (.ok (), clear g)

/-- The graph after changes. What is refused leaves the graph that comes with the refusal. -/
def changeAll (g : G) (changes : List (GraphChange V)) : G :=
  changes.foldl (fun g c => (change g c).2) g

/-- Changes in two portions are made one portion after the other. -/
theorem changeAll_append (g : G) (changes changes' : List (GraphChange V)) :
    changeAll g (changes ++ changes') = changeAll (changeAll g changes) changes' :=
  List.foldl_append

/-- **Graphs in step:** what every change keeps between two graphs is kept by all of them. -/
theorem changeAll_simulation {H : Type w} [EditableGraph H V] {R : G → H → Prop}
    (hstep : ∀ g h c, R g h → R (change g c).2 (change h c).2) {g : G} {h : H} (hR : R g h)
    (changes : List (GraphChange V)) : R (changeAll g changes) (changeAll h changes) := by
  induction changes generalizing g h with
  | nil => exact hR
  | cons c changes ih => exact ih (hstep g h c hR)

end EditableGraph
end StateMachine
