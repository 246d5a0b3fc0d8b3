/-
# Walks from a vertex, and the edges that enter one

A walk is given by the positions which its edges have among the successors of the vertices that they
leave (`Graph.follow`). So a walk that takes another one of several parallel edges is another walk.

Let no edge enter `r` and one edge every other vertex. Then two walks from `r` to the same vertex
have the same last edge, and by induction they are the same. Conversely, let there be one walk from
`r` to each vertex. Two edges into a vertex would extend walks to their sources to two walks, and an
edge into `r` would make a second one besides that without edges. Hence the numbers of edges that
enter the vertices tell whether there is one walk to each (`Graph.rootedTree_iff`), provided that
there is any.
-/

import Mathlib.Data.List.Induction
import StateMachine.Proofs.Graph.Inverse
import StateMachine.Proofs.Graph.Reach

namespace StateMachine
namespace Graph

universe u v

variable {G : Type u} {V : Type v} [DecidableEq V] [Graph G V] {g : G} {r u v w : V} {i : Nat}

/-! ## Walks -/

/-- The vertex to which a walk leads that takes, one after the other, the edges at the given
positions; `none` if there is no such edge. -/
def follow (g : G) : V → List Nat → Option V
  | v, [] => some v
  | v, i :: p => (targets g v)[i]?.bind fun w => follow g w p

/-- A walk with one edge more. -/
theorem follow_concat {p : List Nat} :
    follow g v (p ++ [i]) = some w ↔
      ∃ u, follow g v p = some u ∧ (targets g u)[i]? = some w := by
  induction p generalizing v with
  | nil => simp [follow]
  | cons j p ih =>
    rw [List.cons_append, follow, follow]
    cases (targets g v)[j]? with
    | none => simp
    | some u => exact ih

/-- What can be reached is reached by a walk. -/
theorem reaches_iff_exists_follow : Reaches g v w ↔ ∃ p, follow g v p = some w := by
  constructor
  · intro h
    induction h with
    | refl => exact ⟨[], rfl⟩
    | tail _ hedge ih =>
      obtain ⟨p, hp⟩ := ih
      obtain ⟨i, hi⟩ := List.mem_iff_getElem?.1 hedge
      exact ⟨p ++ [i], follow_concat.2 ⟨_, hp, hi⟩⟩
  · rintro ⟨p, hp⟩
    induction p using List.reverseRecOn generalizing w with
    | nil =>
      obtain rfl := Option.some.inj hp
      exact .refl
    | append_singleton p i ih =>
      obtain ⟨u, hu, hi⟩ := follow_concat.1 hp
      exact (ih hu).tail (List.mem_of_getElem? hi)

/-- A rooted tree: all edges end at vertices, and from the root there is exactly one walk to each
vertex. -/
structure RootedTree (g : G) (r : V) : Prop where
  closed : Closed g
  listed : r ∈ vertices g
  walk : ∀ v ∈ vertices g, ∃! p, follow g r p = some v

/-! ## Edges that enter a vertex -/

/-- The edges from vertices to the given one: the vertex that an edge leaves, and its position
among the successors. -/
def edgesInto (g : G) (v : V) : List (V × Nat) :=
  (vertices g).flatMap fun u => ((targets g u).idxsOf v).map fun i => (u, i)

/-- The edges into a vertex are the places where it occurs among the successors of a vertex. -/
theorem mem_edgesInto :
    (u, i) ∈ edgesInto g v ↔ u ∈ vertices g ∧ (targets g u)[i]? = some v := by
  simp [edgesInto, List.getElem?_eq_some_iff]

/-- Each edge is met once. -/
theorem nodup_edgesInto (h : (vertices g).Nodup) : (edgesInto g v).Nodup := by
  refine List.nodup_flatMap.2 ⟨fun u _ => ?_, h.imp fun hne => ?_⟩
  · exact List.nodup_idxsOf.map fun i j hij => (Prod.mk.inj hij).2
  · intro e he he'
    obtain ⟨i, -, rfl⟩ := List.mem_map.1 he
    obtain ⟨j, -, hij⟩ := List.mem_map.1 he'
    exact hne (Prod.mk.inj hij).1.symm

/-- There is one source for each edge. -/
theorem length_edgesInto :
    (edgesInto g v).length = (sourcesAmong (targets g) (vertices g) v).length := by
  simp [edgesInto, sourcesAmong, List.length_flatMap]

/-- Vertices that are not listed cannot be asked for their successors. -/
def OnlyListed (g : G) : Prop := ∀ v, v ∉ vertices g → ∃ e, successors g v = .error e

/-- Only what is listed has successors to show. -/
theorem OnlyListed.mem_vertices (h : OnlyListed g) {vs : List V} (hv : successors g v = .ok vs) :
    v ∈ vertices g := by
  by_contra hunlisted
  obtain ⟨e, he⟩ := h v hunlisted
  rw [hv] at he
  cases he

/-- What an edge leaves is listed. -/
theorem OnlyListed.mem_of_edge (h : OnlyListed g) (hi : (targets g u)[i]? = some v) :
    u ∈ vertices g := by
  unfold targets at hi
  split at hi
  · rename_i vs hvs
    exact h.mem_vertices hvs
  · cases hi

/-! ## One walk to each vertex -/

/-- **Two walks to the same vertex are the same,** if no edge enters their beginning and at most one
every other vertex. -/
theorem follow_injective (hlisted : OnlyListed g) (hroot : edgesInto g r = [])
    (hone : ∀ v, v ≠ r → ∀ e ∈ edgesInto g v, ∀ e' ∈ edgesInto g v, e = e') {p q : List Nat}
    (hp : follow g r p = some v) (hq : follow g r q = some v) : p = q := by
  have hno : ∀ {u : V} {i : Nat}, (targets g u)[i]? ≠ some r := by
    intro u i hi
    have hmem : (u, i) ∈ edgesInto g r := mem_edgesInto.2 ⟨hlisted.mem_of_edge hi, hi⟩
    rw [hroot] at hmem
    cases hmem
  -- The last edges of both walks enter `v`, so they are one, and the walks up to it end alike.
  induction p using List.reverseRecOn generalizing q v with
  | nil =>
    obtain rfl := Option.some.inj hp
    cases q using List.reverseRecOn with
    | nil => rfl
    | append_singleton q j =>
      obtain ⟨u, -, hj⟩ := follow_concat.1 hq
      exact absurd hj hno
  | append_singleton p i ih =>
    obtain ⟨u, hu, hi⟩ := follow_concat.1 hp
    have hv : v ≠ r := fun h => hno (h ▸ hi)
    cases q using List.reverseRecOn with
    | nil => exact absurd (Option.some.inj hq).symm hv
    | append_singleton q j =>
      obtain ⟨u', hu', hj⟩ := follow_concat.1 hq
      have he : (u, i) ∈ edgesInto g v := mem_edgesInto.2 ⟨hlisted.mem_of_edge hi, hi⟩
      have he' : (u', j) ∈ edgesInto g v := mem_edgesInto.2 ⟨hlisted.mem_of_edge hj, hj⟩
      obtain ⟨rfl, rfl⟩ := Prod.mk.inj (hone v hv _ he _ he')
      rw [ih hu hu']

namespace RootedTree

variable (h : RootedTree g r)

include h

/-- A vertex to which a walk leads has only this one. -/
theorem eq_of_follow (hv : v ∈ vertices g) {p q : List Nat} (hp : follow g r p = some v)
    (hq : follow g r q = some v) : p = q :=
  (h.walk v hv).unique hp hq

/-- Every vertex can be reached from the root. -/
theorem reaches (hv : v ∈ vertices g) : Reaches g r v :=
  reaches_iff_exists_follow.2 (h.walk v hv).exists

/-- No edge enters the root. -/
theorem edgesInto_root : edgesInto g r = [] := by
  refine List.eq_nil_iff_forall_not_mem.2 fun ⟨u, i⟩ he => ?_
  obtain ⟨hu, hi⟩ := mem_edgesInto.1 he
  obtain ⟨p, hp⟩ := (h.walk u hu).exists
  have hnil : p ++ [i] = [] := h.eq_of_follow h.listed (follow_concat.2 ⟨u, hp, hi⟩) rfl
  simp at hnil

/-- One edge enters every other vertex. -/
theorem length_edgesInto_eq_one (hnodup : (vertices g).Nodup) (hlisted : OnlyListed g)
    (hv : v ∈ vertices g) (hne : v ≠ r) : (edgesInto g v).length = 1 := by
  obtain ⟨p, hp⟩ := (h.walk v hv).exists
  cases p using List.reverseRecOn with
  | nil => exact absurd (Option.some.inj hp).symm hne
  | append_singleton p i =>
    obtain ⟨u, hu, hi⟩ := follow_concat.1 hp
    have hsame : ∀ e, e ∈ edgesInto g v ↔ e ∈ [(u, i)] := by
      rintro ⟨u', j⟩
      rw [List.mem_singleton, mem_edgesInto]
      constructor
      · rintro ⟨hu', hj⟩
        -- The walk to the source of the other edge goes on to `v`, so it is the same.
        obtain ⟨q, hq⟩ := (h.walk u' hu').exists
        have hpq := h.eq_of_follow hv (follow_concat.2 ⟨u', hq, hj⟩) hp
        obtain ⟨rfl, hij⟩ := List.append_inj' hpq rfl
        obtain rfl := Option.some.inj (hq.symm.trans hu)
        rw [List.singleton_inj.1 hij]
      · rintro he
        obtain ⟨rfl, rfl⟩ := Prod.mk.inj he
        exact ⟨hlisted.mem_of_edge hi, hi⟩
    exact ((List.perm_ext_iff_of_nodup (nodup_edgesInto hnodup) (List.nodup_singleton _)).2
      hsame).length_eq

end RootedTree

/-- **Rooted trees by the edges that enter their vertices:** all edges end at vertices, no edge
enters the root and one every other vertex, and all can be reached from the root. -/
theorem rootedTree_iff (hnodup : (vertices g).Nodup) (hlisted : OnlyListed g) :
    RootedTree g r ↔
      (Closed g ∧ ∀ v ∈ vertices g, Reaches g r v) ∧ r ∈ vertices g ∧
        (edgesInto g r).length = 0 ∧
        ∀ v ∈ vertices g, v ≠ r → (edgesInto g v).length = 1 := by
  constructor
  · intro h
    exact ⟨⟨h.closed, fun v hv => h.reaches hv⟩, h.listed,
      List.length_eq_zero_iff.2 h.edgesInto_root,
      fun v hv hne => h.length_edgesInto_eq_one hnodup hlisted hv hne⟩
  · rintro ⟨⟨hclosed, hreaches⟩, hr, hroot, hone⟩
    refine ⟨hclosed, hr, fun v hv => existsUnique_of_exists_of_unique
      (reaches_iff_exists_follow.1 (hreaches v hv)) fun p q hp hq => ?_⟩
    refine follow_injective hlisted (List.length_eq_zero_iff.1 hroot) ?_ hp hq
    intro w hne e he e' he'
    have hw : w ∈ vertices g := by
      obtain ⟨u, i⟩ := e
      obtain ⟨hu, hi⟩ := mem_edgesInto.1 he
      obtain ⟨vs, hvs, hsub⟩ := hclosed u hu
      rw [targets_eq hvs] at hi
      exact hsub w (List.mem_of_getElem? hi)
    obtain ⟨d, hd⟩ := List.length_eq_one_iff.1 (hone w hw hne)
    rw [hd, List.mem_singleton] at he he'
    rw [he, he']

end Graph
end StateMachine
