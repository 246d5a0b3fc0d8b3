/-
# Breadth-first order lists what can be reached

A vertex is reached from another one by a row of edges (`Graph.Reaches`). While the queue is worked
off, the vertices that are done and those that wait are distinct and reached from the start, and the
successors of those that are done are among them (`Graph.Visiting`). So when nothing waits any more,
what is done is closed under edges and is just what can be reached (`Graph.Visiting.of_visit`).

The queue is worked off within so many turns as there are vertices, and without a refusal, if every
vertex can be asked for its successors and all of these are vertices (`Graph.Closed`).
-/

import Mathlib.Data.List.Nodup
import Mathlib.Data.List.Perm.Subperm
import Mathlib.Logic.Relation
import StateMachine.Graph.BreadthFirst

namespace StateMachine
namespace Graph

universe u v

variable {G : Type u} {V : Type v} [DecidableEq V] [Graph G V] {g : G}

/-- The successors of a vertex, none if it cannot be asked for them. -/
def targets (g : G) (v : V) : List V :=
  match successors g v with
  | .ok vs => vs
  | .error _ => []

/-- The targets of a vertex are its successors if it has an answer for them. -/
theorem targets_eq {v : V} {vs : List V} (h : successors g v = .ok vs) : targets g v = vs := by
  rw [targets, h]

/-- A vertex that has an answer answers with its targets. -/
theorem successors_eq_targets {v : V} (h : ∃ vs, successors g v = .ok vs) :
    successors g v = .ok (targets g v) := by
  obtain ⟨vs, hvs⟩ := h
  rw [hvs, targets_eq hvs]

/-- Edges lead from one vertex to the other, or they are the same. -/
def Reaches (g : G) : V → V → Prop := Relation.ReflTransGen fun a b => b ∈ targets g a

/-- Every vertex can be asked for its successors, and they are vertices. -/
def Closed (g : G) : Prop :=
  ∀ v ∈ vertices g, ∃ vs, successors g v = .ok vs ∧ ∀ w ∈ vs, w ∈ vertices g

section Enqueue

variable {done queue vs : List V} {v w : V}

/-- A vertex is queued behind the others, unless it is done or waits already. -/
theorem enqueue_cons (done queue vs : List V) (v : V) :
    enqueue done queue (v :: vs) =
      enqueue done (if v ∈ done ∨ v ∈ queue then queue else queue ++ [v]) vs :=
  rfl

/-- What waits after vertices were put at the end of the queue. -/
theorem mem_enqueue : w ∈ enqueue done queue vs ↔ w ∈ queue ∨ w ∈ vs ∧ w ∉ done := by
  induction vs generalizing queue with
  | nil => simp [enqueue]
  | cons v vs ih =>
    rw [enqueue_cons, ih]
    by_cases hv : v ∈ done ∨ v ∈ queue
    · rw [if_pos hv]
      grind
    · rw [if_neg hv]
      grind

/-- What is done or waits is met only once. -/
theorem nodup_append_enqueue (h : (done ++ queue).Nodup) :
    (done ++ enqueue done queue vs).Nodup := by
  induction vs generalizing queue with
  | nil => exact h
  | cons v vs ih =>
    rw [enqueue_cons]
    split
    · exact ih h
    · rename_i hv
      refine ih ?_
      rw [← List.append_assoc, List.nodup_append]
      refine ⟨h, List.nodup_singleton v, fun w hw x hx => ?_⟩
      rintro rfl
      rw [List.mem_singleton.1 hx] at hw
      exact hv (List.mem_append.1 hw)

end Enqueue

/-- What holds while the queue is worked off that began with `start`. -/
structure Visiting (g : G) (start : V) (done queue : List V) : Prop where
  nodup : (done ++ queue).Nodup
  begun : start ∈ done ++ queue
  reaches : ∀ v ∈ done ++ queue, Reaches g start v
  closed : ∀ v ∈ done, ∃ vs, successors g v = .ok vs ∧ ∀ w ∈ vs, w ∈ done ++ queue

/-- Before the first turn, the start waits and nothing is done. -/
theorem visiting_start (g : G) (start : V) : Visiting g start [] [start] where
  nodup := List.nodup_singleton start
  begun := List.mem_singleton_self start
  reaches v hv := by
    rw [List.mem_singleton.1 hv]
    exact .refl
  closed := nofun

namespace Visiting

variable {start v : V} {done queue vs : List V}

/-- **Taking a vertex from the queue** and putting its successors there. -/
theorem step (h : Visiting g start done (v :: queue)) (hv : successors g v = .ok vs) :
    Visiting g start (v :: done) (enqueue (v :: done) queue vs) := by
  have hperm : (done ++ v :: queue).Perm (v :: done ++ queue) := List.perm_middle
  have hmem : ∀ w, w ∈ v :: done ++ enqueue (v :: done) queue vs ↔
      w ∈ done ++ v :: queue ∨ w ∈ vs := by
    intro w
    rw [List.mem_append, mem_enqueue, hperm.mem_iff, List.mem_append]
    grind
  refine ⟨nodup_append_enqueue (hperm.nodup_iff.1 h.nodup), (hmem _).2 (.inl h.begun), ?_, ?_⟩
  · intro w hw
    rcases (hmem w).1 hw with hw | hw
    · exact h.reaches w hw
    · have hreaches := h.reaches v (List.mem_append_right _ List.mem_cons_self)
      exact hreaches.tail (by rwa [targets_eq hv])
  · intro w hw
    rcases List.mem_cons.1 hw with rfl | hw
    · exact ⟨vs, hv, fun x hx => (hmem x).2 (.inr hx)⟩
    · obtain ⟨ws, hws, hclosed⟩ := h.closed w hw
      exact ⟨ws, hws, fun x hx => (hmem x).2 (.inl (hclosed x hx))⟩

/-- What can be reached is done when nothing waits. -/
theorem mem_of_reaches (h : Visiting g start done []) (hv : Reaches g start v) : v ∈ done := by
  induction hv with
  | refl => simpa using h.begun
  | tail _ hedge ih =>
    obtain ⟨ws, hws, hclosed⟩ := h.closed _ ih
    rw [targets_eq hws] at hedge
    simpa using hclosed _ hedge

/-- When nothing waits, the vertices that are done are those that can be reached. -/
theorem of_nil (h : Visiting g start done []) {order : List V} (horder : done.reverse = order) :
    order.Nodup ∧ (∀ v, v ∈ order ↔ Reaches g start v) ∧
      ∀ v ∈ order, ∃ vs, successors g v = .ok vs := by
  subst horder
  have hnodup := h.nodup
  rw [List.append_nil] at hnodup
  refine ⟨List.nodup_reverse.2 hnodup, fun v => ?_, fun v hv => ?_⟩
  · rw [List.mem_reverse]
    exact ⟨fun hv => h.reaches v (by simpa using hv), h.mem_of_reaches⟩
  · obtain ⟨vs, hvs, -⟩ := h.closed v (List.mem_reverse.1 hv)
    exact ⟨vs, hvs⟩

/-- **The order lists what can be reached from the start,** each vertex once, and each of them could
be asked for its successors. -/
theorem of_visit (h : Visiting g start done queue) {n : Nat} {order : List V}
    (hr : visit g n done queue = some (.ok order)) :
    order.Nodup ∧ (∀ v, v ∈ order ↔ Reaches g start v) ∧
      ∀ v ∈ order, ∃ vs, successors g v = .ok vs := by
  induction n generalizing done queue with
  | zero =>
    cases queue with
    | cons v queue => simp [visit] at hr
    | nil => exact h.of_nil (by simpa [visit] using hr)
  | succ n ih =>
    cases queue with
    | nil => exact h.of_nil (by simpa [visit] using hr)
    | cons v queue =>
      rw [visit] at hr
      split at hr
      · cases hr
      · rename_i vs hv
        exact ih (h.step hv) hr

/-- **Nothing is refused, and the turns suffice,** if what is done and what waits belongs to a list
of vertices that is closed under edges, and there are turns for those of them that are not done. -/
theorem exists_visit (h : Visiting g start done queue) {all : List V}
    (hall : ∀ v ∈ all, ∃ vs, successors g v = .ok vs ∧ ∀ w ∈ vs, w ∈ all)
    (hsub : ∀ v ∈ done ++ queue, v ∈ all) {n : Nat} (hn : all.length ≤ done.length + n) :
    ∃ order, visit g n done queue = some (.ok order) := by
  induction n generalizing done queue with
  | zero =>
    cases queue with
    | nil => exact ⟨_, by rw [visit]⟩
    | cons v queue =>
      have hlength := (List.subperm_of_subset h.nodup hsub).length_le
      rw [List.length_append, List.length_cons] at hlength
      omega
  | succ n ih =>
    cases queue with
    | nil => exact ⟨_, by rw [visit]⟩
    | cons v queue =>
      obtain ⟨vs, hv, hvs⟩ := hall v (hsub v (List.mem_append_right _ List.mem_cons_self))
      rw [visit, hv]
      refine ih (h.step hv) (fun w hw => ?_) (by rw [List.length_cons]; omega)
      rcases List.mem_append.1 hw with hw | hw
      · refine hsub w ?_
        grind
      · rcases mem_enqueue.1 hw with hw | ⟨hw, -⟩
        · exact hsub w (List.mem_append_right _ (List.mem_cons_of_mem _ hw))
        · exact hvs w hw

end Visiting

section BreadthFirst

variable {start : V} {turns : Nat} {order : List V}

/-- **A breadth-first order lists what can be reached.** -/
theorem of_breadthFirst (h : breadthFirst g start turns = some (.ok order)) :
    order.Nodup ∧ (∀ v, v ∈ order ↔ Reaches g start v) ∧
      ∀ v ∈ order, ∃ vs, successors g v = .ok vs := by
  unfold breadthFirst at h
  split at h
  · exact (visiting_start g start).of_visit h
  · cases h

/-- In a closed graph there is a breadth-first order from every vertex, for which there need not be
more turns than vertices. -/
theorem exists_breadthFirst (hclosed : Closed g) (hstart : start ∈ vertices g)
    (hcontains : contains g start = true) (hturns : (vertices g).length ≤ turns) :
    ∃ order, breadthFirst g start turns = some (.ok order) := by
  rw [breadthFirst, if_pos hcontains]
  refine (visiting_start g start).exists_visit hclosed (fun v hv => ?_) (by simpa using hturns)
  rw [List.mem_singleton.1 hv]
  exact hstart

end BreadthFirst
end Graph
end StateMachine
