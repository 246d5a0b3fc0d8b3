/-
# Breadth-first order

`Graph.breadthFirst` lists the vertices that can be reached from a start, nearer ones first, those
of the same distance in the order in which they are met. It takes one vertex after the other from
the front of a queue, for at most the given number of turns.
-/

import StateMachine.Graph.Basic

namespace StateMachine
namespace Graph

universe u v

variable {G : Type u} {V : Type v} [DecidableEq V] [Graph G V]

/-- Puts those of the vertices at the end of the queue that are neither done nor in it. -/
def enqueue (done queue : List V) (vs : List V) : List V :=
  vs.foldl (fun queue v => if v ∈ done ∨ v ∈ queue then queue else queue ++ [v]) queue

/-- Takes the vertices of a queue one after the other and enqueues their successors. `done` holds
the vertices taken so far, the latest first. -/
def visit (g : G) : Nat → List V → List V → Option (GraphResult V (List V))
  | _, done, [] => some (.ok done.reverse)
  | 0, _, _ :: _ => none
  | turns + 1, done, v :: queue =>
    match Graph.successors g v with
    | .error e => some (.error e)
    | .ok vs => visit g turns (v :: done) (enqueue (v :: done) queue vs)

/-- More turns never change an order that is there. -/
theorem visit_mono {g : G} {n m : Nat} {done queue : List V} {r : GraphResult V (List V)}
    (h : visit g n done queue = some r) (hnm : n ≤ m) : visit g m done queue = some r := by
  induction n generalizing done queue m with
  | zero =>
    cases queue with
    | nil => rw [visit] at h ⊢; exact h
    | cons v queue => simp [visit] at h
  | succ n ih =>
    cases queue with
    | nil => rw [visit] at h ⊢; exact h
    | cons v queue =>
      obtain ⟨m, rfl⟩ : ∃ k, m = k + 1 := ⟨m - 1, by omega⟩
      rw [visit] at h ⊢
      split at h
      · exact h
      · exact ih h (by omega)

/-- The vertices that can be reached from `start`, in breadth-first order; `none` if more than the
given number of vertices has to be taken from the queue. -/
def breadthFirst (g : G) (start : V) (turns : Nat) : Option (GraphResult V (List V)) :=
  if Graph.contains g start then visit g turns [] [start]
  else some (.error (.notFound start))

end Graph
end StateMachine
