/-
# Rooted trees

A rooted tree has one vertex that no edge enters, the root; exactly one edge enters every other
vertex; and all vertices are reached from the root. `Graph.rootWithin` takes the breadth-first order
from the only vertex that may be the root, for at most a given number of turns. An order that takes
more turns than there are vertices reaches too much or goes on for ever, so `Graph.root?` needs no
bound of its own.
-/

import StateMachine.Graph.BreadthFirst
import StateMachine.Graph.Indexed

namespace StateMachine
namespace Graph

universe u v

variable {G : Type u} {V : Type v} [DecidableEq V] [Graph G V]

/-- Goes through vertices and finds the only one that no edge enters; `none` if there is another
one, or a vertex that several edges enter. The outer option says whether all went well. -/
def findRoot (x : Indexed G V) : List V → Option V → Option (Option V × Indexed G V)
  | [], root => some (root, x)
  | v :: vs, root =>
    match x.inDegree v with
    | (.ok 0, x) =>
      match root with
      | none => findRoot x vs (some v)
      | some _ => none
    | (.ok 1, x) => findRoot x vs root
    | _ => none

/-- The root of a graph that is a rooted tree, asked for with a breadth-first order of at most the
given number of turns. The outer option says whether these sufficed. -/
def rootWithin (g : G) (turns : Nat) : Option (Option V) :=
  match findRoot (Indexed.ofGraph g) (Graph.vertices g) none with
  | some (some root, x) =>
    (breadthFirst g root turns).map fun
      | .ok reached => if reached.length = x.getCount.1 then some root else none
      | .error _ => none
  | _ => some none

/-- The root of a graph that is a rooted tree. -/
def root? (g : G) : Option V :=
  match findRoot (Indexed.ofGraph g) (Graph.vertices g) none with
  | some (some root, x) =>
    let count := x.getCount.1
    match breadthFirst g root count with
    | some (.ok reached) => if reached.length = count then some root else none
    | _ => none
  | _ => none

end Graph
end StateMachine
