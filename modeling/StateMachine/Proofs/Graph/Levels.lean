/-
# Breadth-first order goes level by level

Level 0 has the start alone, and each further level the successors of the level before which are in
no earlier level, in the order in which they first occur (`Graph.Level.next`). The levels are defined
without a queue. They are just the vertices at each distance from the start, the length of a
shortest walk (`Graph.mem_level_iff`).

In the queue a level is never alone: while its vertices are taken, those of the next level are put
behind them. So the invariant speaks of a level of which some vertices have been taken: what waits
are the others, and then what has been found so far of the next level (`Graph.visit_taken`). As long
as no vertex refuses, the queue is thus at the beginning of a level again and again, until one is
empty; and a vertex that refuses is met in its place in the order.
-/

import Mathlib.Data.Set.Finite.List
import StateMachine.Graph.Adjacency
import StateMachine.Proofs.Graph.RootedTree

namespace StateMachine
namespace Graph

universe u v

variable {G : Type u} {V : Type v} [DecidableEq V] [Graph G V] {g : G} {start v w : V}

/-! ## Levels -/

/-- The vertices of a level, and those of all levels before it. -/
structure Level (V : Type v) where
  earlier : List V
  vertices : List V

/-- The successors of the vertices of a level, in their order, that are in no level up to this one,
each where it first occurs. -/
def Level.next (g : G) (l : Level V) : Level V where
  earlier := l.earlier ++ l.vertices
  vertices :=
    ((l.vertices.flatMap (targets g)).filter (· ∉ l.earlier ++ l.vertices)).eraseDups

/-- The levels, counted from the start. -/
def level (g : G) (start : V) : Nat → Level V
  | 0 => ⟨[], [start]⟩
  | k + 1 => (level g start k).next g

/-- A vertex is at a distance if a walk of this length leads there, and none that is shorter. -/
structure Distance (g : G) (start v : V) (n : Nat) : Prop where
  walk : ∃ p, p.length = n ∧ follow g start p = some v
  least : ∀ p, follow g start p = some v → n ≤ p.length

/-! ## What is put into the queue -/

section Enqueue

variable {done done' front queue vs : List V}

/-- Vertices are queued one after the other. -/
theorem enqueue_append (vs ws : List V) :
    enqueue done queue (vs ++ ws) = enqueue done (enqueue done queue vs) ws :=
  List.foldl_append

/-- What waits at the front of the queue might as well be done. -/
theorem enqueue_front (h : ∀ w, w ∈ done ∨ w ∈ front ↔ w ∈ done') (queue vs : List V) :
    enqueue done (front ++ queue) vs = front ++ enqueue done' queue vs := by
  induction vs generalizing queue with
  | nil => rfl
  | cons v vs ih =>
    have hseen : v ∈ done ∨ v ∈ front ++ queue ↔ v ∈ done' ∨ v ∈ queue := by
      rw [List.mem_append, ← or_assoc, h]
    rw [enqueue_cons, enqueue_cons]
    by_cases hv : v ∈ done' ∨ v ∈ queue
    · rw [if_pos (hseen.2 hv), if_pos hv, ih]
    · rw [if_neg fun hv' => hv (hseen.1 hv'), if_neg hv, List.append_assoc, ih]

/-- In an empty queue, what is not done is put where it first occurs. -/
theorem enqueue_nil (done vs : List V) :
    enqueue done [] vs = (vs.filter (· ∉ done)).eraseDups := by
  induction vs generalizing done with
  | nil => rfl
  | cons v vs ih =>
    rw [enqueue_cons]
    by_cases hv : v ∈ done
    · rw [if_pos (.inl hv), ih, List.filter_cons_of_neg (by simpa using hv)]
    · have hfront : enqueue done ([v] ++ []) vs = [v] ++ enqueue (v :: done) [] vs :=
        enqueue_front (fun w => by rw [List.mem_singleton, List.mem_cons, or_comm]) [] vs
      rw [if_neg (by simpa using hv), List.nil_append, List.filter_cons_of_pos (by simpa using hv),
        List.eraseDups_cons, List.filter_filter]
      refine hfront.trans ?_
      rw [ih]
      refine congrArg (fun l => v :: List.eraseDups l) (List.filter_congr fun w _ => ?_)
      by_cases hw : w = v <;> simp [hw]

end Enqueue

/-! ## Which vertices are in a level -/

namespace Level

/-- What the vertices of a level that have been taken add to the queue. -/
def found (g : G) (l : Level V) (taken : List V) : List V :=
  enqueue (l.earlier ++ l.vertices) [] (taken.flatMap (targets g))

/-- The next level consists of what the whole level has found. -/
theorem vertices_next (g : G) (l : Level V) : (l.next g).vertices = l.found g l.vertices :=
  (enqueue_nil _ _).symm

/-- The vertex taken last adds those of its targets that are new. -/
theorem found_concat (l : Level V) (taken : List V) (v : V) :
    l.found g (taken ++ [v]) =
      enqueue (l.earlier ++ l.vertices) (l.found g taken) (targets g v) := by
  rw [found, List.flatMap_append, enqueue_append, List.flatMap_singleton]
  rfl

/-- In the next level is what a vertex of the level leads to and what is in no level up to it. -/
theorem mem_next {l : Level V} :
    w ∈ (l.next g).vertices ↔
      (∃ u ∈ l.vertices, w ∈ targets g u) ∧ w ∉ l.earlier ++ l.vertices := by
  rw [vertices_next, found, mem_enqueue, List.mem_flatMap]
  simp

end Level

/-- The vertices of the levels before, one level after the other. -/
theorem earlier_level (g : G) (start : V) (k : Nat) :
    (level g start k).earlier = (List.range k).flatMap fun j => (level g start j).vertices := by
  induction k with
  | zero => rfl
  | succ k ih =>
    rw [List.range_succ, List.flatMap_append, List.flatMap_singleton, ← ih]
    rfl

/-- Earlier vertices are those of the levels before. -/
theorem mem_earlier_iff {k : Nat} :
    v ∈ (level g start k).earlier ↔ ∃ j < k, v ∈ (level g start j).vertices := by
  simp [earlier_level]

/-- No vertex is in two levels, or twice in one. -/
theorem nodup_level (g : G) (start : V) (k : Nat) :
    ((level g start k).earlier ++ (level g start k).vertices).Nodup := by
  induction k with
  | zero => exact List.nodup_singleton start
  | succ k ih =>
    have hnext : ((level g start k).earlier ++ (level g start k).vertices ++
        (level g start k).found g (level g start k).vertices).Nodup :=
      nodup_append_enqueue (by rwa [List.append_nil])
    rw [← Level.vertices_next] at hnext
    exact hnext

/-- No vertex is in two levels. -/
theorem level_unique {j k : Nat} (hj : v ∈ (level g start j).vertices)
    (hk : v ∈ (level g start k).vertices) : j = k := by
  have hle : ∀ {a b : Nat}, v ∈ (level g start a).vertices → v ∈ (level g start b).vertices →
      b ≤ a := by
    intro a b ha hb
    refine Nat.le_of_not_lt fun hab => ?_
    have hearlier : v ∈ (level g start b).earlier := mem_earlier_iff.2 ⟨a, hab, ha⟩
    exact (List.nodup_append.1 (nodup_level g start b)).2.2 v hearlier v hb rfl
  exact Nat.le_antisymm (hle hk hj) (hle hj hk)

/-! ## Distances -/

/-- A walk leads to each vertex of a level that is as long as there are levels before. -/
theorem exists_follow_of_mem_level {k : Nat} (h : v ∈ (level g start k).vertices) :
    ∃ p, p.length = k ∧ follow g start p = some v := by
  induction k generalizing v with
  | zero =>
    obtain rfl := List.mem_singleton.1 h
    exact ⟨[], rfl, rfl⟩
  | succ k ih =>
    obtain ⟨⟨u, hu, hv⟩, -⟩ := Level.mem_next.1 h
    obtain ⟨p, hp, hfollow⟩ := ih hu
    obtain ⟨i, hi⟩ := List.mem_iff_getElem?.1 hv
    exact ⟨p ++ [i], by rw [List.length_append, hp]; rfl, follow_concat.2 ⟨u, hfollow, hi⟩⟩

/-- What a walk leads to is in a level that is no farther away than the walk is long. -/
theorem exists_level_of_follow {p : List Nat} (h : follow g start p = some v) :
    ∃ k ≤ p.length, v ∈ (level g start k).vertices := by
  induction p using List.reverseRecOn generalizing v with
  | nil =>
    obtain rfl := Option.some.inj h
    exact ⟨0, Nat.le_refl 0, List.mem_singleton_self _⟩
  | append_singleton p i ih =>
    obtain ⟨u, hu, hi⟩ := follow_concat.1 h
    obtain ⟨k, hk, hmem⟩ := ih hu
    rw [List.length_append, List.length_singleton]
    -- The vertex is in the next level, unless it was in one before.
    by_cases hseen : v ∈ (level g start (k + 1)).earlier
    · obtain ⟨j, hj, hv⟩ := mem_earlier_iff.1 hseen
      exact ⟨j, by omega, hv⟩
    · exact ⟨k + 1, by omega, Level.mem_next.2 ⟨⟨u, hmem, List.mem_of_getElem? hi⟩, hseen⟩⟩

/-- **A level has the vertices at its distance from the start.** -/
theorem mem_level_iff {k : Nat} :
    v ∈ (level g start k).vertices ↔ Distance g start v k := by
  constructor
  · intro h
    refine ⟨exists_follow_of_mem_level h, fun p hp => ?_⟩
    obtain ⟨j, hj, hv⟩ := exists_level_of_follow hp
    rwa [level_unique h hv]
  · rintro ⟨⟨p, rfl, hp⟩, hleast⟩
    obtain ⟨j, hj, hv⟩ := exists_level_of_follow hp
    obtain ⟨q, rfl, hq⟩ := exists_follow_of_mem_level hv
    rwa [Nat.le_antisymm (hleast q hq) hj]

/-- The levels hold what can be reached, and nothing else. -/
theorem exists_level_iff : (∃ k, v ∈ (level g start k).vertices) ↔ Reaches g start v := by
  rw [reaches_iff_exists_follow]
  constructor
  · rintro ⟨k, hk⟩
    obtain ⟨p, -, hp⟩ := exists_follow_of_mem_level hk
    exact ⟨p, hp⟩
  · rintro ⟨p, hp⟩
    obtain ⟨k, -, hk⟩ := exists_level_of_follow hp
    exact ⟨k, hk⟩

/-- Farther vertices never come before nearer ones. -/
theorem pairwise_distance (g : G) (start : V) (k : Nat) :
    (level g start k).earlier.Pairwise fun v w =>
      ∀ i j, Distance g start v i → Distance g start w j → i ≤ j := by
  induction k with
  | zero => exact .nil
  | succ k ih =>
    have hat : ∀ {v i}, v ∈ (level g start k).vertices → Distance g start v i → i = k :=
      fun hv hi => level_unique (mem_level_iff.2 hi) hv
    refine List.pairwise_append.2 ⟨ih, ?_, fun v hv w hw i j hi hj => ?_⟩
    · refine List.pairwise_of_forall_mem_list fun v hv w hw i j hi hj => ?_
      rw [hat hv hi, hat hw hj]
    · obtain ⟨i', hlt, hv⟩ := mem_earlier_iff.1 hv
      rw [level_unique (mem_level_iff.2 hi) hv, hat hw hj]
      exact Nat.le_of_lt hlt

/-! ## The levels come to an end -/

/-- After an empty level there are no others. -/
theorem level_eq_nil_of_le {k j : Nat} (h : (level g start k).vertices = []) (hkj : k ≤ j) :
    (level g start j).vertices = [] := by
  induction j, hkj using Nat.le_induction with
  | base => exact h
  | succ j _ ih =>
    refine List.eq_nil_iff_forall_not_mem.2 fun v hv => ?_
    obtain ⟨⟨u, hu, -⟩, -⟩ := Level.mem_next.1 hv
    rw [ih] at hu
    cases hu

/-- If finitely many vertices can be reached then some level is empty. -/
theorem exists_level_eq_nil (h : {v | Reaches g start v}.Finite) :
    ∃ k, (level g start k).vertices = [] := by
  by_contra hne
  have hlength : ∀ k, k ≤ (level g start k).earlier.length := by
    intro k
    induction k with
    | zero => exact Nat.zero_le _
    | succ k ih =>
      have hpos := List.length_pos_iff.2 fun hk => hne ⟨k, hk⟩
      change k + 1 ≤ ((level g start k).earlier ++ (level g start k).vertices).length
      rw [List.length_append]
      omega
  have hle : ∀ k, (level g start k).earlier.length ≤ h.toFinset.card := by
    intro k
    have hnodup := (List.nodup_append.1 (nodup_level g start k)).1
    rw [← List.toFinset_card_of_nodup hnodup]
    refine Finset.card_le_card fun v hv => ?_
    obtain ⟨j, -, hj⟩ := mem_earlier_iff.1 (List.mem_toFinset.1 hv)
    exact h.mem_toFinset.2 (exists_level_iff.1 ⟨j, hj⟩)
  exact absurd ((hlength _).trans (hle _)) (Nat.not_succ_le_self _)

/-- The first empty level. -/
theorem exists_depth (h : {v | Reaches g start v}.Finite) :
    ∃ depth, ∀ k, (level g start k).vertices = [] ↔ depth ≤ k := by
  classical
  have hex := exists_level_eq_nil h
  refine ⟨Nat.find hex, fun k => ⟨fun hk => Nat.find_le hk, fun hk => ?_⟩⟩
  exact level_eq_nil_of_le (Nat.find_spec hex) hk

/-- In a graph that has no answer for vertices which are not listed, finitely many vertices can be
reached. -/
theorem OnlyListed.finite_reaches (h : OnlyListed g) (start : V) :
    {v | Reaches g start v}.Finite := by
  refine (List.finite_toSet (start :: (vertices g).flatMap (targets g))).subset fun v hv => ?_
  rcases Relation.ReflTransGen.cases_tail hv with rfl | ⟨u, -, hedge⟩
  · exact List.mem_cons_self
  · obtain ⟨i, hi⟩ := List.mem_iff_getElem?.1 hedge
    exact List.mem_cons_of_mem _ (List.mem_flatMap.2 ⟨u, h.mem_of_edge hi, hedge⟩)

/-! ## Taking the levels from the queue -/

/-- **Taking some vertices of a level.** The others are still at the front of the queue, and what
has been found of the next level is behind them. -/
theorem visit_taken {l : Level V} {taken rest : List V} (hl : l.vertices = taken ++ rest)
    (htaken : ∀ u ∈ taken, ∃ vs, successors g u = .ok vs) (n : Nat) :
    visit g (taken.length + n) l.earlier.reverse l.vertices =
      visit g n (l.earlier ++ taken).reverse (rest ++ l.found g taken) := by
  induction taken using List.reverseRecOn generalizing rest n with
  | nil =>
    rw [hl, List.append_nil, List.length_nil, Nat.zero_add]
    simp [Level.found, enqueue]
  | append_singleton taken v ih =>
    obtain ⟨vs, hvs⟩ := htaken v (List.mem_append_right _ (List.mem_singleton_self v))
    have hsplit : l.vertices = taken ++ v :: rest := by rw [hl, List.append_assoc]; rfl
    have hbefore := ih hsplit (fun u hu => htaken u (List.mem_append_left _ hu)) (n + 1)
    have hlength : (taken ++ [v]).length + n = taken.length + (n + 1) := by
      rw [List.length_append, List.length_singleton]
      omega
    have hdone : v :: (l.earlier ++ taken).reverse = (l.earlier ++ (taken ++ [v])).reverse := by
      simp
    -- Whatever is in a level so far has been done, or waits in front of what is found now.
    have hseen : ∀ w, w ∈ v :: (l.earlier ++ taken).reverse ∨ w ∈ rest ↔
        w ∈ l.earlier ++ l.vertices := by
      intro w
      rw [hsplit]
      simp only [List.mem_cons, List.mem_reverse, List.mem_append]
      tauto
    rw [hlength, hbefore, List.cons_append, visit, hvs]
    simp only
    rw [enqueue_front hseen, hdone, Level.found_concat, targets_eq hvs]

/-- **Taking all levels before one,** the queue comes to stand at its beginning. -/
theorem visit_level {k : Nat}
    (h : ∀ u ∈ (level g start k).earlier, ∃ vs, successors g u = .ok vs) (n : Nat) :
    visit g ((level g start k).earlier.length + n) [] [start] =
      visit g n (level g start k).earlier.reverse (level g start k).vertices := by
  induction k generalizing n with
  | zero =>
    rw [show (level g start 0).earlier.length = 0 from rfl, Nat.zero_add]
    rfl
  | succ k ih =>
    have hearlier := ih fun u hu => h u (List.mem_append_left _ hu)
    have hall : (level g start k).vertices = (level g start k).vertices ++ [] :=
      (List.append_nil _).symm
    have hlevel := visit_taken hall (fun u hu => h u (List.mem_append_right _ hu)) n
    have hlength : (level g start (k + 1)).earlier.length + n =
        (level g start k).earlier.length + ((level g start k).vertices.length + n) := by
      rw [← Nat.add_assoc, ← List.length_append]
      rfl
    rw [hlength, hearlier, hlevel, List.nil_append, ← Level.vertices_next]
    rfl

/-- Where in the levels a vertex of the order is. -/
theorem exists_level_of_earlier {k : Nat} {before after : List V}
    (h : (level g start k).earlier = before ++ v :: after) :
    ∃ j taken rest, before = (level g start j).earlier ++ taken ∧
      (level g start j).vertices = taken ++ v :: rest := by
  induction k generalizing after with
  | zero => simp [level] at h
  | succ k ih =>
    have hsplit : (level g start k).earlier ++ (level g start k).vertices =
        before ++ v :: after := h
    rcases List.append_eq_append_iff.1 hsplit with ⟨taken, hbefore, hvertices⟩ | ⟨l, hl, hv⟩
    · exact ⟨k, taken, after, hbefore, hvertices⟩
    · cases l with
      | nil => exact ⟨k, [], after, by simpa using hl.symm, hv.symm⟩
      | cons w l =>
        obtain ⟨rfl, -⟩ := List.cons.inj hv
        exact ih hl

/-- If none refuses, the order has the levels up to the first empty one. -/
theorem visit_of_asked {k n : Nat} (hk : (level g start k).vertices = [])
    (h : ∀ u ∈ (level g start k).earlier, ∃ vs, successors g u = .ok vs)
    (hn : (level g start k).earlier.length ≤ n) :
    visit g n [] [start] = some (.ok (level g start k).earlier) := by
  obtain ⟨n, rfl⟩ := Nat.exists_eq_add_of_le hn
  rw [visit_level h, hk, visit, List.reverse_reverse]

/-- The first vertex in the order that refuses gives the answer. -/
theorem visit_of_refused {k n : Nat} {before after : List V} {e : GraphError V}
    (hk : (level g start k).earlier = before ++ v :: after)
    (h : ∀ u ∈ before, ∃ vs, successors g u = .ok vs) (hv : successors g v = .error e)
    (hn : before.length < n) : visit g n [] [start] = some (.error e) := by
  obtain ⟨j, taken, rest, rfl, hj⟩ := exists_level_of_earlier hk
  obtain ⟨n, rfl⟩ := Nat.exists_eq_add_of_lt hn
  have hlength : ((level g start j).earlier ++ taken).length + n + 1 =
      (level g start j).earlier.length + (taken.length + (n + 1)) := by
    rw [List.length_append]
    omega
  rw [hlength, visit_level fun u hu => h u (List.mem_append_left _ hu),
    visit_taken hj fun u hu => h u (List.mem_append_right _ hu), List.cons_append, visit, hv]

/-! ## The order -/

/-- **A breadth-first order goes level by level.** A start that is not there is not found. Otherwise,
if finitely many vertices can be reached, the levels end with the first empty one. Put one after the
other, they have each vertex that can be reached once and no others, level `k` those at distance `k`,
so that distances never decrease.

* If all these vertices can be asked for their successors then they are the breadth-first order.
* Otherwise the refusal of the first of them that cannot be asked is the result.

In both cases there need not be more turns than vertices that can be reached. -/
theorem breadthFirst_by_levels (g : G) (start : V) :
    (contains g start = false →
      ∀ turns, breadthFirst g start turns = some (.error (.notFound start))) ∧
    (contains g start = true → {v | Reaches g start v}.Finite → ∃ depth,
      let order := (List.range depth).flatMap fun k => (level g start k).vertices
      (∀ k, (level g start k).vertices = [] ↔ depth ≤ k) ∧
      (order.Nodup ∧ (∀ v, v ∈ order ↔ Reaches g start v) ∧
        (∀ k v, v ∈ (level g start k).vertices ↔ Distance g start v k) ∧
        order.Pairwise fun v w =>
          ∀ i j, Distance g start v i → Distance g start w j → i ≤ j) ∧
      ((∀ v, Reaches g start v → ∃ vs, successors g v = .ok vs) →
        ∀ turns, order.length ≤ turns → breadthFirst g start turns = some (.ok order)) ∧
      ∀ before v after e, order = before ++ v :: after →
        (∀ u ∈ before, ∃ vs, successors g u = .ok vs) → successors g v = .error e →
        ∀ turns, order.length ≤ turns → breadthFirst g start turns = some (.error e)) := by
  refine ⟨fun hstart turns => ?_, fun hstart hfinite => ?_⟩
  · rw [breadthFirst, hstart]
    rfl
  · obtain ⟨depth, hdepth⟩ := exists_depth hfinite
    have hlast : (level g start depth).vertices = [] := (hdepth depth).2 (Nat.le_refl depth)
    -- The levels before the first empty one are all there are, so they hold what can be reached.
    have hmem : ∀ v, v ∈ (level g start depth).earlier ↔ Reaches g start v := by
      intro v
      rw [← exists_level_iff, mem_earlier_iff]
      refine exists_congr fun k => and_iff_right_of_imp fun hk => Nat.lt_of_not_le fun hle => ?_
      rw [(hdepth k).2 hle] at hk
      cases hk
    refine ⟨depth, ?_⟩
    rw [← earlier_level]
    simp only [breadthFirst, hstart, if_true]
    refine ⟨hdepth, ⟨(List.nodup_append.1 (nodup_level g start depth)).1, hmem,
      fun k v => mem_level_iff, pairwise_distance g start depth⟩, fun hasked turns hturns => ?_,
      fun before v after e horder hasked hv turns hturns => ?_⟩
    · exact visit_of_asked hlast (fun u hu => hasked u ((hmem u).1 hu)) hturns
    · refine visit_of_refused horder hasked hv ?_
      rw [horder, List.length_append, List.length_cons] at hturns
      omega

end Graph

/-- The vertex `1` has two edges to `2`, and `2` has one to itself. Cycles lead back to `1`, but none
to `6`. -/
def Adjacency.meshed : Adjacency Nat :=
  ⟨[(6, some [1]), (1, some [2, 3, 2]), (2, some [2, 4]), (3, some [4, 5, 1]), (4, some [5]),
    (5, some [])]⟩

/-- The same, but `3` cannot be asked for its successors, and `4` has an edge to `9`, which is not
there. -/
def Adjacency.torn : Adjacency Nat :=
  ⟨[(6, some [1]), (1, some [2, 3, 2]), (2, some [2, 4]), (3, none), (4, some [9]),
    (5, some [])]⟩

/-- From `1`, the first of these graphs has three levels. In the second one `3` and then `9` refuse
to answer, and the first refusal is told. -/
theorem Adjacency.meshed_by_levels :
    (∀ turns, 5 ≤ turns → Graph.breadthFirst meshed 1 turns = some (.ok [1, 2, 3, 4, 5])) ∧
    (∀ turns, 5 ≤ turns → Graph.breadthFirst torn 1 turns = some (.error (.notFound 3))) ∧
    ∀ turns, Graph.breadthFirst torn 9 turns = some (.error (.notFound 9)) := by
  have hlisted : ∀ {g : Adjacency Nat}, g.vertices.Nodup → Graph.OnlyListed g :=
    fun h => (consistent h).listed
  have hmeshed := (hlisted (g := meshed) (by decide)).finite_reaches 1
  have htorn := (hlisted (g := torn) (by decide)).finite_reaches 1
  obtain ⟨depth, hdepth, ⟨-, hmem, -⟩, hasked, -⟩ :=
    (Graph.breadthFirst_by_levels meshed 1).2 (by decide) hmeshed
  obtain ⟨depth', hdepth', -, -, hrefused⟩ :=
    (Graph.breadthFirst_by_levels torn 1).2 (by decide) htorn
  obtain rfl : depth = 3 := by
    have hle := (hdepth 3).1 (by decide)
    have hlt := mt (hdepth 2).2 (by decide)
    omega
  obtain rfl : depth' = 4 := by
    have hle := (hdepth' 4).1 (by decide)
    have hlt := mt (hdepth' 3).2 (by decide)
    omega
  have horder : ((List.range 3).flatMap fun k => (Graph.level meshed 1 k).vertices) =
      [1, 2, 3, 4, 5] := by decide
  have horder' : ((List.range 4).flatMap fun k => (Graph.level torn 1 k).vertices) =
      [1, 2] ++ 3 :: [4, 9] := by decide
  simp only [horder] at hmem hasked
  simp only [horder'] at hrefused
  refine ⟨hasked fun v hv => ?_, hrefused [1, 2] 3 [4, 9] _ rfl ?_ (by decide), ?_⟩
  · have hanswers : ∀ v ∈ [1, 2, 3, 4, 5], Graph.successors meshed v =
        .ok (Graph.targets meshed v) := by decide
    exact ⟨_, hanswers v ((hmem v).2 hv)⟩
  · have hanswers : ∀ v ∈ [1, 2], Graph.successors torn v = .ok (Graph.targets torn v) := by
      decide
    exact fun v hv => ⟨_, hanswers v hv⟩
  · exact (Graph.breadthFirst_by_levels torn 9).1 (by decide)

end StateMachine
