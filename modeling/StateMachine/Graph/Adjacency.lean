/-
# Graphs that know successors only

An adjacency graph keeps nothing but a list of successors for each vertex, in which one may occur
several times, and may be no vertex of the graph. A vertex may also be listed without a list of
successors: then it is there, but cannot be asked for them. Predecessors and the number of vertices
are not kept.
-/

import StateMachine.Graph.Basic

namespace StateMachine

universe u

/-- Vertices in the order in which they were added, with their successors. -/
structure Adjacency (V : Type u) where
  rows : List (V × Option (List V))
  deriving DecidableEq, Repr

namespace Adjacency

variable {V : Type u} [DecidableEq V]

/-- The graph without vertices. -/
def empty : Adjacency V := ⟨[]⟩

/-- The listed vertices, in the order in which they were listed. -/
def vertices (g : Adjacency V) : List V := g.rows.map Prod.fst

/-- The successors of a vertex; a vertex that is bare or not listed at all is not found. -/
def successors (g : Adjacency V) (v : V) : GraphResult V (List V) :=
  match g.rows.lookup v with
  | some (some l) => .ok l
  | _ => .error (.notFound v)

/-- Changes the successors of a vertex. -/
def update (g : Adjacency V) (v : V) (f : List V → List V) : Adjacency V :=
  ⟨g.rows.map fun row => if row.1 = v then (row.1, row.2.map f) else row⟩

/-- Lists a vertex behind the others, with no successors yet, unless it is listed already. -/
def add (g : Adjacency V) (v : V) : Adjacency V :=
  if v ∈ g.vertices then g else ⟨g.rows ++ [(v, some [])]⟩

/-- Lists a vertex that cannot be asked for successors. -/
def addBare (g : Adjacency V) (v : V) : Adjacency V :=
  if v ∈ g.vertices then g else ⟨g.rows ++ [(v, none)]⟩

/-- Takes a vertex out of the list and out of the successors of all the others. -/
def remove (g : Adjacency V) (v : V) : Edited (Adjacency V) V :=
  if v ∈ g.vertices then
    let rows := g.rows.filter (·.1 ≠ v)
    (.ok (), ⟨rows.map fun row => (row.1, row.2.map fun l => l.filter (· ≠ v))⟩)
  else (.error (.notFound v), g)

/-- Adds an edge, whether or not there is one already and whether or not the target is there. -/
def connect (g : Adjacency V) (a b : V) : Edited (Adjacency V) V :=
  match g.successors a with
  | .error e => (.error e, g)
  | .ok _ => (.ok (), g.update a fun l => l ++ [b])

/-- Removes the first of the edges from one vertex to another. -/
def disconnect (g : Adjacency V) (a b : V) : Edited (Adjacency V) V :=
  match g.successors a with
  | .error e => (.error e, g)
  | .ok l =>
    if b ∈ l then (.ok (), g.update a fun l => l.erase b)
    else (.error (.missingEdge a b), g)

/-- Changing the successors of a vertex does not change which vertices there are. -/
@[simp] theorem vertices_update (g : Adjacency V) (v : V) (f : List V → List V) :
    (g.update v f).vertices = g.vertices := by
  simp only [vertices, update, List.map_map]
  refine List.map_congr_left fun row _ => ?_
  by_cases h : row.1 = v <;> simp [h]

/-- A vertex is added behind the others, unless it is there already. -/
theorem vertices_add (g : Adjacency V) (v : V) :
    (g.add v).vertices = if v ∈ g.vertices then g.vertices else g.vertices ++ [v] := by
  by_cases h : v ∈ g.vertices
  · simp [add, h]
  · simp only [add, h, if_false]
    simp [vertices]

/-- Removing a vertex takes it out of the list and leaves the others in their order. -/
theorem vertices_remove (g : Adjacency V) (v : V) :
    (g.remove v).2.vertices = g.vertices.filter (· ≠ v) := by
  by_cases h : v ∈ g.vertices
  · simp only [remove, h, if_true]
    simp [vertices, List.filter_map, Function.comp_def]
  · simp only [remove, h, if_false]
    exact (List.filter_eq_self.2 fun w hw => by simpa using fun e : w = v => h (e ▸ hw)).symm

instance : EditableGraph (Adjacency V) V where
  vertices := vertices
  successors := successors
  add := add
  remove := remove
  connect := connect
  disconnect := disconnect

end Adjacency
end StateMachine
