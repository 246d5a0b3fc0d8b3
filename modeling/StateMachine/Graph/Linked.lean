/-
# Graphs that know both ends of their edges

A linked graph keeps its vertices in the order in which they were added, and two tables of links:
the targets of the edges that leave a vertex, and the sources of the edges that enter it, each in
the order in which they were connected. There is at most one edge from a vertex to another. A
refused change leaves the graph as it is.

The three parts are changed apart from each other, and only where a vertex or an edge is noted: to
remove a vertex, the targets of its edges are asked for in one table to find the places in the
other where it has to be dropped.
-/

import StateMachine.Graph.Links

namespace StateMachine

universe u

/-- A directed graph without parallel edges. -/
structure LinkedGraph (V : Type u) where
  /-- The vertices, in the order in which they were added. -/
  order : List V
  /-- For each vertex the targets of the edges that leave it. -/
  targets : Links V
  /-- For each vertex the sources of the edges that enter it. -/
  sources : Links V
  deriving DecidableEq, Repr

variable {V : Type u} [DecidableEq V]

namespace LinkedGraph

/-- The graph without vertices. -/
def empty : LinkedGraph V := ⟨[], .empty, .empty⟩

/-- The vertices in the order in which they were added. -/
def vertices (g : LinkedGraph V) : List V := g.order

/-- The number of vertices. -/
def size (g : LinkedGraph V) : Nat := g.order.length

/-- The vertex is in the graph. -/
def contains (g : LinkedGraph V) (v : V) : Bool := g.targets.contains v

/-- The targets of the edges that leave the vertex. -/
def successors (g : LinkedGraph V) (v : V) : GraphResult V (List V) := g.targets.ends v

/-- The sources of the edges that enter the vertex. -/
def predecessors (g : LinkedGraph V) (v : V) : GraphResult V (List V) := g.sources.ends v

/-- The number of edges that enter a vertex. -/
def inDegree (g : LinkedGraph V) (v : V) : GraphResult V Nat := (g.predecessors v).map List.length

/-- The number of edges that leave a vertex. -/
def outDegree (g : LinkedGraph V) (v : V) : GraphResult V Nat := (g.successors v).map List.length

/-- Refuses a vertex that is not there. -/
def require (g : LinkedGraph V) (v : V) : GraphResult V Unit :=
  if g.contains v then .ok () else .error (.notFound v)

/-- Refuses two vertices that are not both there, on account of the first one if it is missing. -/
def requireBoth (g : LinkedGraph V) (a b : V) : GraphResult V Unit :=
  (g.require a).bind fun _ => g.require b

/-- Adds a vertex without edges behind the others, unless it is there already. -/
def add (g : LinkedGraph V) (v : V) : LinkedGraph V :=
  if g.contains v then g
  else
    { order := g.order ++ [v]
      targets := g.targets.insert v []
      sources := g.sources.insert v [] }

/-- Removes a vertex with all edges that leave or enter it. -/
def remove (g : LinkedGraph V) (v : V) : Edited (LinkedGraph V) V :=
  match g.targets.ends v with
  | .error e => (.error e, g)
  | .ok outgoing =>
    let incoming := (g.sources.get? v).getD []
    (.ok (),
      { order := g.order.filter (· ≠ v)
        targets := (g.targets.erase v).drop v incoming
        sources := (g.sources.erase v).drop v outgoing })

/-- Adds an edge between two vertices, unless it is there already. -/
def connect (g : LinkedGraph V) (a b : V) : Edited (LinkedGraph V) V :=
  match g.requireBoth a b with
  | .error e => (.error e, g)
  | .ok () =>
    if b ∈ (g.targets.get? a).getD [] then (.ok (), g)
    else
      (.ok (),
        { g with
          targets := g.targets.modify a fun ends => ends ++ [b]
          sources := g.sources.modify b fun ends => ends ++ [a] })

/-- Removes the edge between two vertices. -/
def disconnect (g : LinkedGraph V) (a b : V) : Edited (LinkedGraph V) V :=
  match g.requireBoth a b with
  | .error e => (.error e, g)
  | .ok () =>
    match g.targets.ends a with
    | .error e => (.error e, g)
    | .ok ends =>
      if b ∈ ends then
        (.ok (),
          { g with
            targets := g.targets.modify a fun ends => ends.erase b
            sources := g.sources.modify b fun ends => ends.filter (· ≠ a) })
      else (.error (.missingEdge a b), g)

instance : EditableGraph (LinkedGraph V) V where
  vertices := vertices
  successors := successors
  predecessors? g v := some (g.predecessors v)
  count? g := some g.size
  contains := contains
  add := add
  remove := remove
  connect := connect
  disconnect := disconnect
  clear _ := empty

end LinkedGraph
end StateMachine
