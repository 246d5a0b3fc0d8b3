/-
# Directed graphs

A graph lists its vertices and gives the successors of a vertex, or says why it cannot. It may
also give predecessors and the number of vertices without a search; `Graph.predecessors?` and
`Graph.count?` are `none` where it does not. Whether it contains a vertex is, unless the graph
says otherwise, whether it lists it.

An editable graph can be changed. A change that is refused comes with the graph as it is left.
-/

import StateMachine.Text.Literal

namespace StateMachine

universe u v

/-- Why a graph refuses a question or a change. -/
inductive GraphError (V : Type v) where
  | notFound (vertex : V)
  | missingEdge (source target : V)
  deriving DecidableEq, Repr

/-- The text shown for a refusal. -/
def GraphError.message {V : Type v} [Literal V] : GraphError V → String
  | notFound v => "Vertex " ++ Literal.literal v ++ " is not in the graph"
  | missingEdge a b => "No edge from " ++ Literal.literal a ++ " to " ++ Literal.literal b

/-- An answer of a graph, or why there is none. -/
abbrev GraphResult (V : Type v) (α : Type u) := Except (GraphError V) α

/-- Graphs `G` with vertices in `V`. -/
class Graph (G : Type u) (V : outParam (Type v)) [DecidableEq V] where
  /-- The vertices, each of them once. -/
  vertices : G → List V
  /-- The targets of the edges that leave a vertex. -/
  successors : G → V → GraphResult V (List V)
  /-- The sources of the edges that enter a vertex, if the graph keeps them. -/
  predecessors? : G → V → Option (GraphResult V (List V)) := fun _ _ => none
  /-- The number of vertices, if the graph keeps it. -/
  count? : G → Option Nat := fun _ => none
  contains : G → V → Bool := fun g v => decide (v ∈ vertices g)

/-- What a change has come to, and the graph after it. -/
abbrev Edited (G : Type u) (V : Type v) := GraphResult V Unit × G

/-- Graphs that can be changed. -/
class EditableGraph (G : Type u) (V : outParam (Type v)) [DecidableEq V] extends Graph G V where
  /-- Adds a vertex; one that is there keeps its edges. -/
  add : G → V → G
  /-- Removes a vertex with all its edges. -/
  remove : G → V → Edited G V
  /-- Adds an edge. -/
  connect : G → V → V → Edited G V
  /-- Removes an edge. -/
  disconnect : G → V → V → Edited G V
  /-- Removes every vertex. -/
  clear : G → G := fun g => (vertices g).foldl (fun g v => (remove g v).2) g

end StateMachine
