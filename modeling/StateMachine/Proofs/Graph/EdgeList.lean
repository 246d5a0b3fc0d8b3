/-
# Graphs as lists of edges

The plainest account of a directed graph without parallel edges: a list of vertices and a list of
edges, each once and in the order in which they came. Everything else is read off the two lists:
the targets of a vertex are the second ends of the edges that begin with it, its sources the first
ends of those that end with it (`EdgeList.targets`, `EdgeList.sources`).
-/

import Mathlib.Data.List.Nodup
import StateMachine.Graph.Basic

namespace StateMachine

universe u w x

/-- Vertices and edges, each once, in the order in which they were added. An edge is given by its
source and its target, and both are vertices. -/
structure EdgeList (V : Type u) where
  vertices : List V
  edges : List (V × V)
  vertices_nodup : vertices.Nodup
  edges_nodup : edges.Nodup
  ends_mem : ∀ e ∈ edges, e.1 ∈ vertices ∧ e.2 ∈ vertices
  deriving DecidableEq, Repr

/-- The far ends of the edges whose near end is the given vertex. -/
def endsAt {V : Type u} [DecidableEq V] (near far : V × V → V) (edges : List (V × V)) (v : V) :
    List V :=
  (edges.filter fun e => near e = v).map far

section EndsAt

variable {V : Type u} [DecidableEq V] (near far : V × V → V) (edges : List (V × V)) (v : V)

/-- One more edge adds its far end, last, to those of its near end. -/
theorem endsAt_concat (e : V × V) :
    endsAt near far (edges ++ [e]) v =
      if v = near e then endsAt near far edges v ++ [far e] else endsAt near far edges v := by
  by_cases h : v = near e
  · simp [endsAt, h]
  · simp [endsAt, h, Ne.symm h]

/-- If edges at a vertex are kept or not according to their far ends, so are the far ends. -/
theorem endsAt_filter {keep : V × V → Bool} {keepEnd : V → Bool}
    (h : ∀ e ∈ edges, near e = v → keep e = keepEnd (far e)) :
    endsAt near far (edges.filter keep) v = (endsAt near far edges v).filter keepEnd := by
  simp only [endsAt, List.filter_map, List.filter_filter]
  refine congrArg _ (List.filter_congr fun e he => ?_)
  by_cases hv : near e = v
  · simp [hv, h e he hv]
  · simp [hv]

/-- Edges that differ and share a near end have different far ends. -/
theorem nodup_endsAt {near far : V × V → V} {edges : List (V × V)} (hedges : edges.Nodup)
    (hinj : ∀ x y, near x = near y → far x = far y → x = y) (v : V) :
    (endsAt near far edges v).Nodup := by
  refine (hedges.filter _).map_on fun x hx y hy hxy => ?_
  simp only [List.mem_filter, decide_eq_true_eq] at hx hy
  exact hinj x y (hx.2.trans hy.2.symm) hxy

/-- An edge that is removed takes its far end from those of its near end. -/
theorem endsAt_erase {near far : V × V → V} {edges : List (V × V)} (hedges : edges.Nodup)
    (hinj : ∀ x y, near x = near y → far x = far y → x = y) (e : V × V) (v : V) :
    endsAt near far (edges.erase e) v =
      if v = near e then (endsAt near far edges v).filter (· ≠ far e)
      else endsAt near far edges v := by
  rw [hedges.erase_eq_filter]
  split
  · rename_i hv
    refine endsAt_filter near far edges v fun x _ hx => ?_
    have hsame : x = e ↔ far x = far e := ⟨congrArg far, hinj x e (hx.trans hv)⟩
    by_cases h : x = e
    · simp [h]
    · simp [h, mt hsame.2 h]
  · rename_i hv
    have hkeep : endsAt near far (edges.filter (· != e)) v =
        (endsAt near far edges v).filter fun _ => true := by
      refine endsAt_filter near far edges v fun x _ hx => ?_
      have hne : x ≠ e := fun h => hv (hx ▸ congrArg near h)
      simpa using hne
    rw [hkeep, List.filter_true]

end EndsAt

namespace EdgeList

variable {V : Type u} [DecidableEq V]

/-- The graph without vertices and edges. -/
def empty : EdgeList V where
  vertices := []
  edges := []
  vertices_nodup := List.nodup_nil
  edges_nodup := List.nodup_nil
  ends_mem := nofun

/-- The targets of the edges that leave a vertex. -/
def targets (e : EdgeList V) (v : V) : List V := endsAt Prod.fst Prod.snd e.edges v

/-- The sources of the edges that enter a vertex. -/
def sources (e : EdgeList V) (v : V) : List V := endsAt Prod.snd Prod.fst e.edges v

/-- Adds a vertex; one that is there stays in its place. -/
def add (e : EdgeList V) (v : V) : EdgeList V :=
  if h : v ∈ e.vertices then e
  else
    { e with
      vertices := e.vertices ++ [v]
      vertices_nodup := by simpa using e.vertices_nodup.concat h
      ends_mem := fun x hx =>
        ⟨List.mem_append_left _ (e.ends_mem x hx).1, List.mem_append_left _ (e.ends_mem x hx).2⟩ }

/-- Removes a vertex, and every edge that has it at one of its ends. -/
def remove (e : EdgeList V) (v : V) : Edited (EdgeList V) V :=
  if v ∈ e.vertices then
    (.ok (),
      { vertices := e.vertices.filter (· ≠ v)
        edges := e.edges.filter fun x => x.1 ≠ v ∧ x.2 ≠ v
        vertices_nodup := e.vertices_nodup.filter _
        edges_nodup := e.edges_nodup.filter _
        ends_mem := fun x hx => by
          have hends := e.ends_mem x (List.mem_filter.1 hx).1
          have hkept := (List.mem_filter.1 hx).2
          simp_all })
  else (.error (.notFound v), e)

/-- Adds an edge between two vertices, at the end, unless it is there. -/
def connect (e : EdgeList V) (a b : V) : Edited (EdgeList V) V :=
  if ha : a ∉ e.vertices then (.error (.notFound a), e)
  else if hb : b ∉ e.vertices then (.error (.notFound b), e)
  else if h : (a, b) ∈ e.edges then (.ok (), e)
  else
    (.ok (),
      { e with
        edges := e.edges ++ [(a, b)]
        edges_nodup := by simpa using e.edges_nodup.concat h
        ends_mem := fun x hx => by
          rcases List.mem_append.1 hx with hx | hx
          · exact e.ends_mem x hx
          · obtain rfl := List.mem_singleton.1 hx
            exact ⟨not_not.1 ha, not_not.1 hb⟩ })

/-- Removes the edge between two vertices. -/
def disconnect (e : EdgeList V) (a b : V) : Edited (EdgeList V) V :=
  if a ∉ e.vertices then (.error (.notFound a), e)
  else if b ∉ e.vertices then (.error (.notFound b), e)
  else if (a, b) ∈ e.edges then
    (.ok (),
      { e with
        edges := e.edges.erase (a, b)
        edges_nodup := e.edges_nodup.erase _
        ends_mem := fun x hx => e.ends_mem x (List.mem_of_mem_erase hx) })
  else (.error (.missingEdge a b), e)

/-- The answer to a question about a vertex, which has to be there. -/
def ofVertex {α : Type w} (e : EdgeList V) (v : V) (answer : α) : GraphResult V α :=
  if v ∈ e.vertices then .ok answer else .error (.notFound v)

/-- Only the answer is changed, never the refusal. -/
theorem map_ofVertex {α : Type w} {β : Type x} (e : EdgeList V) (v : V) (answer : α) (f : α → β) :
    (e.ofVertex v answer).map f = e.ofVertex v (f answer) := by
  unfold ofVertex
  split <;> rfl

instance : EditableGraph (EdgeList V) V where
  vertices := vertices
  successors e v := e.ofVertex v (e.targets v)
  predecessors? e v := some (e.ofVertex v (e.sources v))
  count? e := some e.vertices.length
  add := add
  remove := remove
  connect := connect
  disconnect := disconnect
  clear _ := empty

section Ends

variable {e : EdgeList V} {v w : V}

/-- The targets of a vertex are the ends of the edges that begin there. -/
theorem mem_targets : w ∈ e.targets v ↔ (v, w) ∈ e.edges := by
  simp [targets, endsAt]

/-- The sources of a vertex are where the edges begin that end there. -/
theorem mem_sources : w ∈ e.sources v ↔ (w, v) ∈ e.edges := by
  simp [sources, endsAt]

/-- **A source of a vertex is one that has it as a target.** -/
theorem mem_sources_iff_mem_targets : w ∈ e.sources v ↔ v ∈ e.targets w := by
  rw [mem_sources, mem_targets]

/-- No target is listed twice. -/
theorem nodup_targets (e : EdgeList V) (v : V) : (e.targets v).Nodup :=
  nodup_endsAt e.edges_nodup (fun _ _ => Prod.ext) v

/-- No source is listed twice. -/
theorem nodup_sources (e : EdgeList V) (v : V) : (e.sources v).Nodup :=
  nodup_endsAt e.edges_nodup (fun _ _ htarget hsource => Prod.ext hsource htarget) v

/-- The targets of a vertex in the list without an edge. -/
theorem targets_erase (e : EdgeList V) (x : V × V) (v : V) :
    endsAt Prod.fst Prod.snd (e.edges.erase x) v =
      if v = x.1 then (e.targets v).filter (· ≠ x.2) else e.targets v :=
  endsAt_erase e.edges_nodup (fun _ _ => Prod.ext) x v

/-- The sources of a vertex in the list without an edge. -/
theorem sources_erase (e : EdgeList V) (x : V × V) (v : V) :
    endsAt Prod.snd Prod.fst (e.edges.erase x) v =
      if v = x.2 then (e.sources v).filter (· ≠ x.1) else e.sources v :=
  endsAt_erase e.edges_nodup (fun _ _ htarget hsource => Prod.ext hsource htarget) x v

/-- What is no vertex has no targets. -/
theorem targets_of_not_mem (h : v ∉ e.vertices) : e.targets v = [] := by
  refine List.eq_nil_iff_forall_not_mem.2 fun w hw => h ?_
  exact (e.ends_mem _ (mem_targets.1 hw)).1

/-- What is no vertex has no sources. -/
theorem sources_of_not_mem (h : v ∉ e.vertices) : e.sources v = [] := by
  refine List.eq_nil_iff_forall_not_mem.2 fun w hw => h ?_
  exact (e.ends_mem _ (mem_sources.1 hw)).2

/-- What a vertex is asked for has a member only if the vertex is there. -/
theorem exists_ofVertex_iff {ends : List V} (h : v ∉ e.vertices → ends = []) :
    (∃ l, e.ofVertex v ends = .ok l ∧ w ∈ l) ↔ w ∈ ends := by
  unfold ofVertex
  by_cases hv : v ∈ e.vertices
  · simp [hv]
  · simp [hv, h hv]

end Ends
end EdgeList
end StateMachine
