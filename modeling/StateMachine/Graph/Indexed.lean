/-
# Graphs with an index

An indexed graph can be asked everything: what its graph does not keep, it finds out by going once
through the successors of all vertices, and keeps it until the graph is changed. Predecessors found
in this way are in the order of the vertices. If some vertex cannot be asked for its successors
then nothing is kept, and the refusal of the first such vertex is the answer.

A question may fill the index, so it gives the indexed graph back together with the answer.
-/

import StateMachine.Graph.Links

namespace StateMachine

universe u v

/-- A graph with what has been found out about it. -/
structure Indexed (G : Type u) (V : Type v) where
  graph : G
  inverse : Option (Links V) := none
  count : Option Nat := none

variable {G : Type u} {V : Type v} [DecidableEq V]

/-- The edges of a graph by their targets. -/
def Graph.inverse [Graph G V] (g : G) : GraphResult V (Links V) :=
  (Graph.vertices g).foldlM
    (fun inverse v => (Graph.successors g v).map fun targets => inverse.pushAll targets v)
    (.ofVertices (Graph.vertices g))

namespace Indexed

/-- A graph about which nothing has been found out yet. -/
def ofGraph (g : G) : Indexed G V := { graph := g }

section Questions

variable [Graph G V]

/-- The vertices of the graph. -/
def vertices (x : Indexed G V) : List V := Graph.vertices x.graph

/-- The successors that the graph knows. -/
def successors (x : Indexed G V) (v : V) : GraphResult V (List V) := Graph.successors x.graph v

/-- The graph has the vertex. -/
def contains (x : Indexed G V) (v : V) : Bool := Graph.contains x.graph v

/-- The number of edges that leave a vertex. -/
def outDegree (x : Indexed G V) (v : V) : GraphResult V Nat := (x.successors v).map List.length

/-- The edges by their targets. -/
def getInverse (x : Indexed G V) : GraphResult V (Links V) × Indexed G V :=
  match x.inverse with
  | some inverse => (.ok inverse, x)
  | none =>
    match Graph.inverse x.graph with
    | .ok inverse => (.ok inverse, { x with inverse := some inverse })
    | .error e => (.error e, x)

/-- The sources of the edges that enter a vertex. -/
def predecessors (x : Indexed G V) (v : V) : GraphResult V (List V) × Indexed G V :=
  match Graph.predecessors? x.graph v with
  | some answer => (answer, x)
  | none =>
    match x.getInverse with
    | (.error e, x) => (.error e, x)
    | (.ok inverse, x) => (inverse.ends v, x)

/-- The number of edges that enter a vertex. -/
def inDegree (x : Indexed G V) (v : V) : GraphResult V Nat × Indexed G V :=
  let (answer, x) := x.predecessors v
  (answer.map List.length, x)

/-- The number of vertices. -/
def getCount (x : Indexed G V) : Nat × Indexed G V :=
  match Graph.count? x.graph with
  | some n => (n, x)
  | none =>
    match x.count with
    | some n => (n, x)
    | none =>
      let n := x.vertices.length
      (n, { x with count := some n })

end Questions

section Changes

variable [EditableGraph G V]

/-- Forgets what has been found out. -/
def forget (x : Indexed G V) : Indexed G V := { x with inverse := none, count := none }

/-- The result of a change, and the same index over the graph after it. -/
def withEdited (x : Indexed G V) (r : Edited G V) : Edited (Indexed G V) V :=
  (r.1, { x with graph := r.2 })

/-- Adds a vertex to the graph and forgets what was kept. -/
def add (x : Indexed G V) (v : V) : Indexed G V :=
  { x.forget with graph := EditableGraph.add x.graph v }

/-- Removes a vertex from the graph and forgets what was kept. -/
def remove (x : Indexed G V) (v : V) : Edited (Indexed G V) V :=
  x.forget.withEdited (EditableGraph.remove x.graph v)

/-- Adds an edge to the graph and forgets what was kept. -/
def connect (x : Indexed G V) (a b : V) : Edited (Indexed G V) V :=
  x.forget.withEdited (EditableGraph.connect x.graph a b)

/-- Removes an edge from the graph and forgets what was kept. -/
def disconnect (x : Indexed G V) (a b : V) : Edited (Indexed G V) V :=
  x.forget.withEdited (EditableGraph.disconnect x.graph a b)

/-- Clears the graph and forgets what was kept. -/
def clear (x : Indexed G V) : Indexed G V :=
  { x.forget with graph := EditableGraph.clear x.graph }

end Changes

end Indexed
end StateMachine
