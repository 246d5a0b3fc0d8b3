/-
# Rooted trees are recognised

`Graph.root?` asks for the number of edges that enter each vertex, and counts what is reached from
the only vertex that none enters. If these are as many vertices as are listed, then each listed
vertex has been reached, since none is reached twice and those that are not listed cannot be asked
for their successors. So each has been asked, and its successors have been reached, too
(`Graph.Consistent.exists_order_iff`). Loops, cycles apart from the root, edges that lead nowhere and
vertices that do not answer are all excluded in this way.

What is left are the rooted trees, by the numbers of edges that enter their vertices
(`Graph.rootedTree_iff`). No more turns are needed for the order than there are vertices and one, and
with more of them the answer is the same (`Graph.Consistent.rootWithin_eq`).
-/

import StateMachine.Graph.Adjacency
import StateMachine.Graph.RootedTree
import StateMachine.Proofs.Graph.Native
import StateMachine.Proofs.Graph.Walk

namespace StateMachine

universe u v

variable {G : Type u} {V : Type v} [DecidableEq V]

namespace Graph

/-- The number of edges that enter a vertex, from a search through all edges if the graph does not
keep them. -/
def searchInDegree [Graph G V] (g : G) (v : V) : GraphResult V Nat :=
  (searchPredecessors g v).map List.length

end Graph

/-- Asking for an in-degree gives what a search of the graph gives, and leaves the index up to date
for the same graph. -/
theorem Indexed.UpToDate.inDegree [Graph G V] {x : Indexed G V} (h : x.UpToDate) (v : V) :
    (x.inDegree v).1 = Graph.searchInDegree x.graph v ∧ (x.inDegree v).2.graph = x.graph ∧
      (x.inDegree v).2.UpToDate := by
  obtain ⟨hanswer, hnext⟩ := h.predecessors v
  exact ⟨congrArg (Except.map List.length) hanswer, hnext⟩

namespace Graph

section Search

variable [Graph G V] {g : G} {r : V}

/-- The search for the root without an index. -/
def rootAmong (g : G) : List V → Option V → Option (Option V)
  | [], root => some root
  | v :: vs, root =>
    match searchInDegree g v with
    | .ok 0 =>
      match root with
      | none => rootAmong g vs (some v)
      | some _ => none
    | .ok 1 => rootAmong g vs root
    | _ => none

/-- **The index makes no difference,** and is up to date afterwards. -/
theorem findRoot_eq {x : Indexed G V} (h : x.UpToDate) (vs : List V) (root : Option V) :
    ∃ x' : Indexed G V, x'.UpToDate ∧ x'.graph = x.graph ∧
      findRoot x vs root = (rootAmong x.graph vs root).map fun root' => (root', x') := by
  induction vs generalizing x root with
  | nil => exact ⟨x, h, rfl, rfl⟩
  | cons v vs ih =>
    obtain ⟨hanswer, hgraph, hnext⟩ := h.inDegree v
    have hrest := fun root => hgraph ▸ ih hnext root
    unfold findRoot rootAmong
    rw [← hanswer]
    generalize x.inDegree v = asked at *
    obtain ⟨answer, x'⟩ := asked
    match answer, root with
    | .ok 0, none => exact hrest (some v)
    | .ok 1, root => exact hrest root
    | .ok 0, some _ => exact ⟨x', hnext, hgraph, rfl⟩
    | .ok (_ + 2), _ => exact ⟨x', hnext, hgraph, rfl⟩
    | .error _, _ => exact ⟨x', hnext, hgraph, rfl⟩

/-- A root that has been found is kept as long as one edge enters each further vertex. -/
theorem rootAmong_some_iff {vs : List V} {q : V} :
    rootAmong g vs (some q) = some (some r) ↔
      q = r ∧ ∀ v ∈ vs, searchInDegree g v = .ok 1 := by
  induction vs with
  | nil => simp [rootAmong]
  | cons v vs ih =>
    rw [rootAmong]
    match h : searchInDegree g v with
    | .ok 0 => simp [h]
    | .ok 1 => simpa [h] using ih
    | .ok (n + 2) => simp [h]
    | .error e => simp [h]

/-- **The root is the only vertex that no edge enters,** and one edge enters every other one. -/
theorem rootAmong_none_iff {vs : List V} (hvs : vs.Nodup) :
    rootAmong g vs none = some (some r) ↔
      r ∈ vs ∧ searchInDegree g r = .ok 0 ∧
        ∀ v ∈ vs, v ≠ r → searchInDegree g v = .ok 1 := by
  induction vs with
  | nil => simp [rootAmong]
  | cons v vs ih =>
    obtain ⟨hv, hvs⟩ := List.nodup_cons.1 hvs
    -- The first vertex is the root itself, or one edge enters it as it does all the others.
    have hfirst : (searchInDegree g r = .ok 0 ∧
        ∀ w ∈ v :: vs, w ≠ r → searchInDegree g w = .ok 1) →
          v = r ∧ searchInDegree g v = .ok 0 ∨ searchInDegree g v = .ok 1 := by
      rintro ⟨h0, hrest⟩
      by_cases hvr : v = r
      · exact .inl ⟨hvr, hvr ▸ h0⟩
      · exact .inr (hrest v List.mem_cons_self hvr)
    rw [rootAmong]
    match h : searchInDegree g v with
    | .ok 0 =>
      simp only [rootAmong_some_iff]
      constructor
      · rintro ⟨rfl, hrest⟩
        refine ⟨List.mem_cons_self, h, fun w hw hne => ?_⟩
        exact hrest w ((List.mem_cons.1 hw).resolve_left hne)
      · rintro ⟨-, hrest⟩
        obtain ⟨rfl, -⟩ := (hfirst hrest).resolve_right (by simp [h])
        refine ⟨rfl, fun w hw => hrest.2 w (List.mem_cons_of_mem v hw) ?_⟩
        exact fun hwv => hv (hwv ▸ hw)
    | .ok 1 =>
      simp only [ih hvs, List.mem_cons, forall_eq_or_imp, h, implies_true, true_and]
      refine and_congr_left fun ⟨h0, _⟩ => ⟨.inr, fun hr => hr.resolve_left ?_⟩
      rintro rfl
      rw [h] at h0
      cases h0
    | .ok (n + 2) => exact iff_of_false nofun fun ⟨_, hrest⟩ => by simpa [h] using hfirst hrest
    | .error e => exact iff_of_false nofun fun ⟨_, hrest⟩ => by simpa [h] using hfirst hrest

/-- What the search for the root finds with a new index, which then also counts the vertices. -/
theorem exists_findRoot (g : G) : ∃ x : Indexed G V, x.getCount.1 = searchCount g ∧
    findRoot (Indexed.ofGraph g) (vertices g) none =
      (rootAmong g (vertices g) none).map fun root' => (root', x) := by
  obtain ⟨x, hx, hgraph, hfind⟩ := findRoot_eq (Indexed.upToDate_ofGraph g) (vertices g) none
  exact ⟨x, hx.getCount.1.trans (congrArg searchCount hgraph), hfind⟩

/-- A vertex is found to be the root if no other can be, and a breadth-first order from it has as many
vertices as there are. -/
theorem rootWithin_eq_some_iff {turns : Nat} :
    rootWithin g turns = some (some r) ↔ rootAmong g (vertices g) none = some (some r) ∧
      ∃ order, breadthFirst g r turns = some (.ok order) ∧ order.length = searchCount g := by
  obtain ⟨x, hcount, hfind⟩ := exists_findRoot g
  rw [rootWithin, hfind]
  cases rootAmong g (vertices g) none with
  | none => simp
  | some root' =>
    cases root' with
    | none => simp
    | some q =>
      simp only [Option.map_some, hcount, Option.map_eq_some_iff, Option.some.injEq]
      constructor
      · rintro ⟨answer, horder, hr⟩
        cases answer with
        | error e => cases hr
        | ok order =>
          obtain ⟨hlength, hq⟩ := Option.ite_none_right_eq_some.1 hr
          obtain rfl := Option.some.inj hq
          exact ⟨rfl, order, horder, hlength⟩
      · rintro ⟨rfl, order, horder, hlength⟩
        exact ⟨_, horder, if_pos hlength⟩

/-- The root is asked for with as many turns as there are vertices. -/
theorem root?_eq_join (g : G) : root? g = (rootWithin g (searchCount g)).join := by
  obtain ⟨x, hcount, hfind⟩ := exists_findRoot g
  rw [root?, rootWithin, hfind]
  cases rootAmong g (vertices g) none with
  | none => rfl
  | some root' =>
    cases root' with
    | none => rfl
    | some q =>
      simp only [Option.map_some, hcount]
      cases breadthFirst g q (searchCount g) with
      | none => rfl
      | some answer => cases answer <;> rfl

/-- There is an answer if the breadth-first order from the only vertex that can be the root comes to
an end. -/
theorem exists_rootWithin {turns : Nat} (h : ∀ q, rootAmong g (vertices g) none = some (some q) →
    ∃ answer, breadthFirst g q turns = some answer) : ∃ o, rootWithin g turns = some o := by
  obtain ⟨x, -, hfind⟩ := exists_findRoot g
  rw [rootWithin, hfind]
  cases hq : rootAmong g (vertices g) none with
  | none => exact ⟨_, rfl⟩
  | some root' =>
    cases root' with
    | none => exact ⟨_, rfl⟩
    | some q =>
      obtain ⟨answer, hanswer⟩ := h q hq
      simp only [Option.map_some, hanswer]
      exact ⟨_, rfl⟩

/-- If only listed vertices have an answer, the queue is empty or refuses before more turns than there
are vertices have been taken. -/
theorem Visiting.exists_answer {start : V} {done queue : List V} (h : Visiting g start done queue)
    (hlisted : OnlyListed g) {n : Nat} (hn : (vertices g).length < done.length + n) :
    ∃ answer, visit g n done queue = some answer := by
  induction n generalizing done queue with
  | zero =>
    -- All that is done has answered, so it is listed.
    have hsub : done ⊆ vertices g := by
      intro v hv
      obtain ⟨vs, hvs, -⟩ := h.closed v hv
      exact hlisted.mem_vertices hvs
    have hle := (List.subperm_of_subset (List.nodup_append.1 h.nodup).1 hsub).length_le
    omega
  | succ n ih =>
    cases queue with
    | nil => exact ⟨_, by rw [visit]⟩
    | cons v queue =>
      rw [visit]
      cases hv : successors g v with
      | error e => exact ⟨_, rfl⟩
      | ok vs => exact ih (h.step hv) (by rw [List.length_cons]; omega)

end Search

/-! ## Graphs that are not at odds with themselves -/

section Consistent

variable [Graph G V] {g : G} {r v : V}

/-- The graph lists each vertex once and has no answer for others, and what it tells of predecessors
and of the number of vertices without a search is what a search would find. Edges may lead anywhere,
several of them to the same vertex, and listed vertices need not have an answer, either; nothing is
said about predecessors then. -/
structure Consistent (g : G) : Prop where
  nodup : (vertices g).Nodup
  listed : OnlyListed g
  contains : ∀ v, contains g v = true ↔ v ∈ vertices g
  predecessors : (∀ v ∈ vertices g, ∃ vs, successors g v = .ok vs) →
    ∀ v ∈ vertices g, ∀ answer, predecessors? g v = some answer →
      ∃ us, answer = .ok us ∧ us.Perm (sourcesAmong (targets g) (vertices g) v)
  count : ∀ n, count? g = some n → n = (vertices g).length

namespace Consistent

variable (h : Consistent g)

include h

/-- The vertices are counted right, whether the graph keeps their number or not. -/
theorem searchCount_eq : searchCount g = (vertices g).length := by
  unfold searchCount
  cases hn : count? g with
  | none => rfl
  | some n => exact h.count n hn

/-- If all vertices have an answer then the edges that enter a vertex are counted. -/
theorem searchInDegree_eq (hasked : ∀ v ∈ vertices g, ∃ vs, successors g v = .ok vs)
    (hv : v ∈ vertices g) : searchInDegree g v = .ok (edgesInto g v).length := by
  rw [length_edgesInto]
  cases hkept : predecessors? g v with
  | some answer =>
    obtain ⟨us, rfl, hperm⟩ := h.predecessors hasked v hv answer hkept
    rw [searchInDegree, searchPredecessors, hkept]
    exact congrArg Except.ok hperm.length_eq
  | none =>
    have htargets := fun u hu => successors_eq_targets (hasked u hu)
    rw [searchInDegree, searchPredecessors_eq hkept htargets, if_pos (.inl hv)]
    rfl

/-- **As many vertices are reached as are listed** just if all of them can be reached and no edge
leads away from them. This does not depend on the number of turns if there are enough. -/
theorem exists_order_iff (hr : r ∈ vertices g) {turns : Nat}
    (hturns : (vertices g).length ≤ turns) :
    (∃ order, breadthFirst g r turns = some (.ok order) ∧ order.length = searchCount g) ↔
      Closed g ∧ ∀ v ∈ vertices g, Reaches g r v := by
  rw [h.searchCount_eq]
  constructor
  · rintro ⟨order, horder, hlength⟩
    obtain ⟨hnodup, hmem, hasked⟩ := of_breadthFirst horder
    have hsub : order ⊆ vertices g := fun v hv =>
      (hasked v hv).elim fun _ hvs => h.listed.mem_vertices hvs
    -- The order has no place for anything but the listed vertices, each of them once.
    have hperm := (List.subperm_of_subset hnodup hsub).perm_of_length_le (Nat.le_of_eq hlength.symm)
    refine ⟨fun v hv => ?_, fun v hv => (hmem v).1 (hperm.mem_iff.2 hv)⟩
    obtain ⟨vs, hvs⟩ := hasked v (hperm.mem_iff.2 hv)
    refine ⟨vs, hvs, fun w hw => hperm.mem_iff.1 ((hmem w).2 ?_)⟩
    have hreaches := (hmem v).1 (hperm.mem_iff.2 hv)
    exact hreaches.tail (by rwa [targets_eq hvs])
  · rintro ⟨hclosed, hreaches⟩
    obtain ⟨order, horder⟩ :=
      exists_breadthFirst hclosed hr ((h.contains r).2 hr) hturns
    obtain ⟨hnodup, hmem, hasked⟩ := of_breadthFirst horder
    have hsame : ∀ v, v ∈ order ↔ v ∈ vertices g := fun v =>
      ⟨fun hv => (hasked v hv).elim fun _ hvs => h.listed.mem_vertices hvs,
        fun hv => (hmem v).2 (hreaches v hv)⟩
    exact ⟨order, horder, ((List.perm_ext_iff_of_nodup hnodup h.nodup).2 hsame).length_eq⟩

/-- A rooted tree is recognised within any number of turns that suffices for all vertices. -/
theorem rootWithin_iff {turns : Nat} (hturns : (vertices g).length ≤ turns) :
    rootWithin g turns = some (some r) ↔ RootedTree g r := by
  rw [rootWithin_eq_some_iff, rootAmong_none_iff h.nodup, rootedTree_iff h.nodup h.listed]
  constructor
  · rintro ⟨⟨hr, hroot, hone⟩, horder⟩
    have hreached := (h.exists_order_iff hr hturns).1 horder
    have hasked := fun v hv => (hreached.1 v hv).imp fun vs hvs => hvs.1
    have hdegree := fun v (hv : v ∈ vertices g) => h.searchInDegree_eq hasked hv
    refine ⟨hreached, hr, ?_, fun v hv hne => ?_⟩
    · exact Except.ok.inj ((hdegree r hr).symm.trans hroot)
    · exact Except.ok.inj ((hdegree v hv).symm.trans (hone v hv hne))
  · rintro ⟨hreached, hr, hroot, hone⟩
    have hasked := fun v hv => (hreached.1 v hv).imp fun vs hvs => hvs.1
    refine ⟨⟨hr, ?_, fun v hv hne => ?_⟩, (h.exists_order_iff hr hturns).2 hreached⟩
    · rw [h.searchInDegree_eq hasked hr, hroot]
    · rw [h.searchInDegree_eq hasked hv, hone v hv hne]

/-- **Recognising a rooted tree.** -/
theorem root?_iff : root? g = some r ↔ RootedTree g r := by
  rw [root?_eq_join, Option.join_eq_some_iff, h.rootWithin_iff (Nat.le_of_eq h.searchCount_eq.symm)]

/-- **With more turns the answer is the same,** and there is one. -/
theorem rootWithin_eq {turns : Nat} (hturns : (vertices g).length < turns) :
    rootWithin g turns = some (root? g) := by
  obtain ⟨o, ho⟩ : ∃ o, rootWithin g turns = some o := by
    refine exists_rootWithin fun q hq => ?_
    have hcontains : Graph.contains g q = true :=
      (h.contains q).2 ((rootAmong_none_iff h.nodup).1 hq).1
    rw [breadthFirst, if_pos hcontains]
    exact (visiting_start g q).exists_answer h.listed (by simpa using hturns)
  have hsame : ∀ r, o = some r ↔ root? g = some r := by
    intro r
    rw [h.root?_iff, ← h.rootWithin_iff (Nat.le_of_lt hturns), ho, Option.some.injEq]
  rw [ho, Option.ext hsame]

end Consistent

/-- **Exactly the rooted trees are recognised.** Let a graph list each vertex once, refuse to answer
for any other, and agree with this where it answers without a search. Its edges may be parallel,
form loops and cycles or lead to what is not listed, and listed vertices may refuse to answer, too.

* A vertex is found to be the root just if each listed vertex has an answer, all edges lead to
  listed vertices, it is listed itself, and there is exactly one walk from it to every listed
  vertex, parallel edges making different walks.
* At most one vertex is such a root, and no root is found just if there is none.
* The breadth-first order may take any number of turns that is greater than the number of vertices:
  it comes to an end, and the answer is the same. -/
theorem recognises_rootedTree (h : Consistent g) :
    (∀ r, root? g = some r ↔ RootedTree g r) ∧
    (∀ r r', RootedTree g r → RootedTree g r' → r = r') ∧
    (root? g = none ↔ ∀ r, ¬ RootedTree g r) ∧
    ∀ turns, (vertices g).length < turns → rootWithin g turns = some (root? g) := by
  refine ⟨fun r => h.root?_iff, fun r r' hr hr' => ?_, ?_, fun turns => h.rootWithin_eq⟩
  · exact Option.some.inj ((h.root?_iff.2 hr).symm.trans (h.root?_iff.2 hr'))
  · rw [Option.eq_none_iff_forall_ne_some]
    exact forall_congr' fun r => not_congr h.root?_iff

end Consistent
end Graph

/-! ## Which graphs are consistent -/

/-- Whatever changes are made to it, a linked graph is consistent. -/
theorem LinkedGraph.consistent_ofChanges (changes : List (GraphChange V)) :
    Graph.Consistent (LinkedGraph.ofChanges changes) := by
  have hanswers := (represents_ofChanges changes).answersAs
  generalize LinkedGraph.ofChanges changes = g at *
  generalize EdgeList.ofChanges changes = e at *
  have hvertices : Graph.vertices g = e.vertices := hanswers.vertices
  have hsuccessors : ∀ v, Graph.successors g v = e.ofVertex v (e.targets v) := hanswers.successors
  have htargets : Graph.targets g = e.targets := by
    funext v
    rw [Graph.targets, hsuccessors, EdgeList.ofVertex]
    by_cases hv : v ∈ e.vertices
    · rw [if_pos hv]
    · rw [if_neg hv, EdgeList.targets_of_not_mem hv]
  refine ⟨?_, ?_, ?_, ?_, ?_⟩
  · rw [hvertices]
    exact e.vertices_nodup
  · intro v hv
    rw [hvertices] at hv
    exact ⟨_, (hsuccessors v).trans (if_neg hv)⟩
  · intro v
    rw [hvertices, ← decide_eq_true_iff (p := v ∈ e.vertices), ← hanswers.contains]
    rfl
  · rintro - v hv answer hkept
    rw [hvertices] at hv
    have hanswer : answer = .ok (e.sources v) := by
      rw [← Option.some.inj hkept, hanswers.predecessors]
      exact if_pos hv
    refine ⟨_, hanswer, ?_⟩
    rw [hvertices, htargets]
    exact (e.sourcesAmong_perm v).symm
  · rintro n hn
    rw [hvertices, ← Option.some.inj hn]
    exact hanswers.size

namespace Adjacency

variable {V : Type u} [DecidableEq V] {g : Adjacency V}

/-- A graph that only knows successors is consistent if it lists each vertex once. -/
theorem consistent (h : g.vertices.Nodup) : Graph.Consistent g := by
  refine ⟨h, fun v hv => ⟨.notFound v, ?_⟩, fun v => decide_eq_true_iff, nofun, nofun⟩
  have hlookup : g.rows.lookup v = none := by
    refine List.lookup_eq_none_iff.2 fun row hrow => bne_iff_ne.2 ?_
    rintro rfl
    exact hv (List.mem_map_of_mem hrow)
  change g.successors v = _
  rw [successors, hlookup]

/-- No change lists a vertex a second time. -/
theorem nodup_vertices_change (h : g.vertices.Nodup) (c : GraphChange V) :
    (EditableGraph.change g c).2.vertices.Nodup := by
  have hremove {g : Adjacency V} (h : g.vertices.Nodup) (v : V) :
      (g.remove v).2.vertices.Nodup := by
    rw [vertices_remove]
    exact h.filter _
  cases c with
  | add v =>
    change (g.add v).vertices.Nodup
    rw [vertices_add]
    split
    · exact h
    · next hv => exact List.concat_eq_append ▸ h.concat hv
  | remove v => exact hremove h v
  | connect a b =>
    change (g.connect a b).2.vertices.Nodup
    unfold connect
    split
    · exact h
    · rwa [vertices_update]
  | disconnect a b =>
    change (g.disconnect a b).2.vertices.Nodup
    unfold disconnect
    split
    · exact h
    · split
      · rwa [vertices_update]
      · exact h
  | clear =>
    exact List.foldlRecOn (motive := fun g : Adjacency V => g.vertices.Nodup) g.vertices _ h
      fun _ h v _ => hremove h v

/-- Whatever changes are made to it, a graph that only knows successors is consistent if it was so
at first. -/
theorem consistent_changeAll (h : g.vertices.Nodup) (changes : List (GraphChange V)) :
    Graph.Consistent (EditableGraph.changeAll g changes) :=
  consistent <| List.foldlRecOn (motive := fun g : Adjacency V => g.vertices.Nodup) changes _ h
    fun _ h c _ => nodup_vertices_change h c

end Adjacency

/-- The vertex `1` has edges to `2` and `3`, and `3` has one to `4`. -/
def LinkedGraph.branched : List (GraphChange Nat) :=
  [.add 1, .add 2, .add 3, .add 4, .connect 1 3, .connect 1 2, .connect 3 4]

/-- The same with a second edge from `1` to `2`. -/
def Adjacency.doubled : Adjacency Nat :=
  ⟨[(1, some [3, 2, 2]), (2, some []), (3, some [4]), (4, some [])]⟩

/-- The first of these graphs is a rooted tree: the walk to `4` takes the first edge twice. The
second is none, since two walks lead to `2`. -/
theorem LinkedGraph.branched_recognised :
    (Graph.root? (LinkedGraph.ofChanges branched) = some 1 ∧
      (∃! p, Graph.follow (LinkedGraph.ofChanges branched) 1 p = some 4) ∧
      Graph.follow (LinkedGraph.ofChanges branched) 1 [0, 0] = some 4) ∧
    (∀ r, ¬ Graph.RootedTree Adjacency.doubled r) ∧
    Graph.follow Adjacency.doubled 1 [1] = some 2 ∧
      Graph.follow Adjacency.doubled 1 [2] = some 2 := by
  obtain ⟨hroot, -, -⟩ := Graph.recognises_rootedTree (consistent_ofChanges branched)
  have hdoubled : Graph.Consistent Adjacency.doubled := Adjacency.consistent (by decide)
  obtain ⟨-, -, hnone, -⟩ := Graph.recognises_rootedTree hdoubled
  have hfound : Graph.root? (LinkedGraph.ofChanges branched) = some 1 := by decide
  have htree := (hroot 1).1 hfound
  refine ⟨⟨hfound, htree.walk 4 (by decide), by decide⟩, hnone.1 (by decide), by decide, by decide⟩

end StateMachine
