/-
# The diagram of a machine covers its runs

A machine that was built is a graph on the names of its states which is closed under edges: the
targets of the transitions are names of states again. So the names that can be reached from the
initial state are listed by a breadth-first order, which never fails.

A run does not leave this list, with its current state, its path or what it enters. Whoever fires a
transition follows an edge of the graph, and a search that returns to a choice returns to a state in
which it has been (`Search.Covered`). Which transitions are eligible, what actions do to the context,
and what is taken back do not matter.
-/

import StateMachine.Machine.Diagram
import StateMachine.Proofs.Chronicle
import StateMachine.Proofs.Draft.Order
import StateMachine.Proofs.Graph.Reach

namespace StateMachine

universe u v w

variable {C : Type u} {K : Type v} {M : Type w}

/-- The list has each element of `l` once, those that occur first in `l` before the others. -/
structure FirstOccurrences {α : Type u} [DecidableEq α] (l firsts : List α) : Prop where
  nodup : firsts.Nodup
  mem_iff : ∀ a, a ∈ firsts ↔ a ∈ l
  ordered : firsts.Pairwise fun a b => l.idxOf a < l.idxOf b

/-- Erasing repetitions leaves the first occurrences. -/
theorem firstOccurrences_eraseDups {α : Type u} [DecidableEq α] (l : List α) :
    FirstOccurrences l l.eraseDups := by
  have hordered : l.eraseDups.Pairwise fun a b => l.idxOf a < l.idxOf b := by
    induction l using List.reverseRecOn with
    | nil => exact .nil
    | append_singleton l a ih =>
      have hold : ∀ b ∈ l.eraseDups, (l ++ [a]).idxOf b = l.idxOf b :=
        fun b hb => List.idxOf_append_of_mem (List.mem_eraseDups.1 hb)
      have hkept : l.eraseDups.Pairwise fun x y => (l ++ [a]).idxOf x < (l ++ [a]).idxOf y :=
        ih.imp_of_mem fun hx hy hxy => by rwa [hold _ hx, hold _ hy]
      rw [eraseDups_concat]
      split
      · exact hkept
      · rename_i ha
        have ha : a ∉ l := by simpa using ha
        refine List.pairwise_append.2 ⟨hkept, List.pairwise_singleton _ _, fun b hb x hx => ?_⟩
        rw [List.mem_singleton.1 hx, hold b hb, List.idxOf_append_of_notMem ha]
        have hlt := List.idxOf_lt_length_of_mem (List.mem_eraseDups.1 hb)
        omega
  exact ⟨hordered.imp fun hab => fun h => by rw [h] at hab; omega, fun _ => List.mem_eraseDups,
    hordered⟩

/-! ## The diagram as a graph -/

namespace Machine

variable {m : Machine C K}

/-- The vertices of the diagram are the names of the states. -/
theorem mem_vertices {name : String} :
    name ∈ Graph.vertices m ↔ ∃ i, m.stateName i = name := mem_names_iff

/-- The diagram has as many vertices as the machine has states. -/
theorem length_vertices : (Graph.vertices m).length = m.count := by
  change (m.states.toList.map State.name).length = _
  simp

/-- The diagram contains just its vertices. -/
theorem contains_eq_true_iff {name : String} :
    Graph.contains m name = true ↔ name ∈ Graph.vertices m := by
  change (m.find? name).isSome = true ↔ _
  rw [Option.isSome_iff_exists, mem_vertices]
  exact exists_congr fun i => find?_eq_some_iff

/-- The names of the states, and no others, can be asked for their successors. -/
theorem successors_eq_ok_iff {name : String} {vs : List String} :
    Graph.successors m name = .ok vs ↔ ∃ i, m.stateName i = name ∧ m.targets i = vs := by
  simp only [Graph.successors, ← find?_eq_some_iff]
  cases m.find? name with
  | none => simp
  | some i => simp

/-- The successors of a state are the names of the targets of its transitions. -/
theorem successors_stateName (i : Fin m.count) :
    Graph.successors m (m.stateName i) = .ok (m.targets i) :=
  successors_eq_ok_iff.2 ⟨i, rfl, rfl⟩

/-- The diagram has successors for its vertices and refuses any other name. -/
theorem exists_successors_iff {name : String} :
    (∃ vs, Graph.successors m name = .ok vs) ↔ name ∈ Graph.vertices m := by
  rw [mem_vertices]
  constructor
  · rintro ⟨vs, hvs⟩
    obtain ⟨i, hi, -⟩ := successors_eq_ok_iff.1 hvs
    exact ⟨i, hi⟩
  · rintro ⟨i, rfl⟩
    exact ⟨_, successors_stateName i⟩

/-- **The diagram is closed:** the targets of transitions are names of states. -/
theorem closed (m : Machine C K) : Graph.Closed m := by
  intro name hname
  obtain ⟨i, rfl⟩ := mem_vertices.1 hname
  refine ⟨_, successors_stateName i, fun w hw => ?_⟩
  obtain ⟨t, -, rfl⟩ := List.mem_map.1 (List.mem_eraseDups.1 hw)
  exact mem_vertices.2 ⟨_, rfl⟩

/-- The successors of a state are the targets which it has in the draft, by first occurrence. -/
theorem Realizes.firstOccurrences_successors {row : List (DraftState C K)} {initial : String}
    (h : m.Realizes row initial) {s : DraftState C K} (hs : s ∈ row) :
    ∃ vs, Graph.successors m s.name = .ok vs ∧
      FirstOccurrences (s.transitions.map Transition.target) vs := by
  obtain ⟨i, rfl⟩ := h.mem_row_iff.1 hs
  refine ⟨m.targets i, successors_stateName i, ?_⟩
  have htargets : ((m.state i).retarget m.stateName).transitions.map Transition.target =
      (m.state i).transitions.map fun t => m.stateName t.target :=
    List.map_map
  rw [htargets]
  exact firstOccurrences_eraseDups _

/-- From the name of every state there is a breadth-first order. -/
theorem exists_order {name : String} (h : name ∈ Graph.vertices m) :
    ∃ order, ∀ turns, m.count ≤ turns → Graph.breadthFirst m name turns = some (.ok order) := by
  have hcontains := contains_eq_true_iff.2 h
  obtain ⟨order, horder⟩ := Graph.exists_breadthFirst m.closed h hcontains
    (Nat.le_of_eq length_vertices)
  refine ⟨order, fun turns hturns => ?_⟩
  rw [Graph.breadthFirst, if_pos hcontains] at horder ⊢
  exact Graph.visit_mono horder hturns

/-- The state can be reached from the initial one along edges of the diagram. -/
def Reached (m : Machine C K) (i : Fin m.count) : Prop :=
  Graph.Reaches m (m.stateName m.initial) (m.stateName i)

/-- A transition follows an edge of the diagram. -/
theorem Reached.target {i : Fin m.count} (h : m.Reached i) {t : Transition C K (Fin m.count)}
    (ht : t ∈ (m.state i).transitions) : m.Reached t.target := by
  refine h.tail ?_
  rw [Graph.targets_eq (successors_stateName i)]
  exact List.mem_eraseDups.2 (List.mem_map_of_mem ht)

end Machine

/-! ## Runs -/

/-- Only states of the given names are entered. -/
def EntersOnly (names : List String) (es : List Event) : Prop :=
  ∀ name, .entered name ∈ es → name ∈ names

/-- The report tells only of states that can be reached, in its path and in its events. -/
structure Report.Covered (m : Machine C K) (r : Report C) : Prop where
  path : ∀ name ∈ r.path.states, Graph.Reaches m (m.stateName m.initial) name
  entered : ∀ name, .entered name ∈ r.events → Graph.Reaches m (m.stateName m.initial) name

namespace Configuration

variable {m : Machine C K} {g : Configuration m}

/-- The run is in a state that can be reached, has come only through such states, and has entered no
others. -/
structure Covered (g : Configuration m) : Prop where
  reached : m.Reached g.state
  path : ∀ name ∈ g.path.states, Graph.Reaches m (m.stateName m.initial) name
  entered : ∀ name, .entered name ∈ g.events → Graph.Reaches m (m.stateName m.initial) name

/-- At its beginning, a run is in the initial state and has entered nothing else. -/
theorem covered_start (c : C) : (start m c).enter.1.Covered := by
  refine ⟨.refl, fun name h => ?_, fun name h => ?_⟩
  · obtain rfl := List.mem_singleton.1 h
    exact .refl
  · cases List.mem_singleton.1 h
    exact .refl

namespace Covered

/-- Events that enter nothing, a path that is cut, and a state that can be reached, change nothing. -/
theorem of_events {g' : Configuration m} (h : g.Covered) {es : List Event}
    (hevents : g'.events = g.events ++ es) (hes : ∀ name, .entered name ∉ es)
    (hpath : g'.path.states ⊆ g.path.states) (hreached : m.Reached g'.state) : g'.Covered := by
  refine ⟨hreached, fun name hname => h.path name (hpath hname), fun name hname => ?_⟩
  rw [hevents] at hname
  rcases List.mem_append.1 hname with hname | hname
  · exact h.entered name hname
  · exact absurd hname (hes name)

/-- **Firing leads to a state that can be reached**, and enters this one. -/
theorem fire (h : g.Covered) (i : Fin g.transitions.length) : (g.fire i).enter.1.Covered := by
  have htarget : m.Reached (g.transition i).target := h.reached.target (List.getElem_mem i.isLt)
  refine ⟨htarget, fun name hname => ?_, fun name hname => ?_⟩
  · change name ∈ (g.path.push (g.move i)).states at hname
    rw [Path.states_push] at hname
    rcases List.mem_append.1 hname with hname | hname
    · exact h.path name hname
    · obtain rfl := List.mem_singleton.1 hname
      exact htarget
  · rw [events_enter_fire] at hname
    rcases List.mem_append.1 hname with hname | hname
    · exact h.entered name hname
    · obtain rfl : name = m.stateName (g.transition i).target := by
        simpa [Move.events, move] using hname
      exact htarget

/-- Where a turn settles the run, no other state has been entered. -/
theorem of_settled [Input C] [BEq K] {e : Configuration m} {o : Outcome}
    (h : g.enter.1.Covered) (ht : g.turn = .settled e o) : e.Covered := by
  rcases of_turn_eq_settled ht with rfl | rfl
  · exact h
  · exact ⟨h.reached, h.path, h.entered⟩

/-- Going back past choices leads to the state of the last of them. -/
theorem unwind [Rewind C M] (h : g.Covered) {choices : List (Choice (Fin m.count) M K)}
    (hchoices : ∀ d ∈ choices, m.Reached d.state) : (Search.unwind g choices).Covered := by
  induction choices generalizing g with
  | nil => exact h
  | cons d choices ih =>
    have hd : (Search.restore g d).Covered :=
      ⟨hchoices d List.mem_cons_self, h.path, h.entered⟩
    exact ih hd fun d' hd' => hchoices d' (List.mem_cons_of_mem d hd')

/-- What the report of a run that ends here tells. -/
theorem finish (h : g.Covered) (o : Outcome) (backtracks : Nat) :
    (g.finish o backtracks).Covered m := by
  refine ⟨h.path, fun name hname => ?_⟩
  rw [events_finish] at hname
  rcases List.mem_append.1 hname with hname | hname
  · exact h.entered name hname
  · cases o <;> simp [Outcome.event] at hname

end Covered

variable [Input C] [BEq K] {limits : Limits} {c : C} {n : Nat}

/-- Whatever state a direct run enters, it can be reached. -/
theorem covered_of_after (h : Loop.after (step limits) n (start m c) = some g) :
    g.enter.1.Covered := by
  refine Loop.after_induction (P := fun _ g => g.enter.1.Covered) (covered_start c) ?_ h
  rintro n g g' - hcovered hs
  obtain ⟨e, i, ht, -, rfl⟩ := exists_choice_of_step hs
  obtain ⟨rfl, -⟩ := of_turn_eq_choice ht
  exact hcovered.fire i

/-- The report of a direct run tells only of states that can be reached. -/
theorem covered_of_run {turns : Nat} {r : Report C} (h : m.run limits c turns = some r) :
    r.Covered m := by
  obtain ⟨n, -, g, hg, hfinish⟩ := Loop.run_eq_some_iff.1 h
  have hcovered := covered_of_after hg
  rcases of_step_eq_finish hfinish with ⟨e, o, ht, rfl⟩ | ⟨e, i, o, ht, -, rfl⟩
  · exact (hcovered.of_settled ht).finish o 0
  · obtain ⟨rfl, -⟩ := of_turn_eq_choice ht
    exact hcovered.finish o 0

end Configuration

namespace Search

variable {m : Machine C K} {s : Search m M}

/-- The search has just entered a state that can be reached, has entered no others, and would return
to none. -/
structure Covered (s : Search m M) : Prop where
  config : s.config.enter.1.Covered
  trail : ∀ d ∈ s.trail.choices, m.Reached d.state

variable [Input C] [Rewind C M] [BEq K]

/-- What a turn comes to that fires is covered, together with the choices that are left. -/
theorem Covered.of_next (h : s.Covered) {f : Firing m} {trail : Trail (Fin m.count) M K}
    {backtracks : Nat} (hf : s.next = .fires f trail backtracks) :
    f.config.Covered ∧ ∀ d ∈ trail.choices, m.Reached d.state := by
  rcases of_next_eq_fires hf with
    ⟨ht, rfl, -⟩ | ⟨g, reason, past, c, rest, ht, hl, rfl, -, hconfig, -⟩
  · rw [(Configuration.of_turn_eq_choice ht).1]
    exact ⟨h.config, h.trail⟩
  · have hsplit : s.trail.choices = past ++ [c] ++ rest := by rw [hl, List.append_assoc]; rfl
    have hpast : ∀ d ∈ past ++ [c], m.Reached d.state := by
      intro d hd
      exact h.trail d (hsplit ▸ List.mem_append_left rest hd)
    refine ⟨?_, fun d hd => h.trail d (hsplit ▸ List.mem_append_right (past ++ [c]) hd)⟩
    have hu := (h.config.of_settled ht).unwind hpast
    rw [hconfig]
    exact hu.of_events (Configuration.events_returned _ c) (by simp)
      (Path.states_truncate_subset _ c.depth) hu.reached

/-- A turn that goes on keeps the search covered. -/
theorem Covered.step {limits : Limits} {s' : Search m M} (h : s.Covered)
    (hs : step limits s = .continue s') : s'.Covered := by
  obtain ⟨f, trail, backtracks, hf, rfl⟩ := exists_fires_of_step hs
  obtain ⟨hconfig, htrail⟩ := h.of_next hf
  refine ⟨hconfig.fire f.index, fun d hd => ?_⟩
  rcases List.mem_cons.1 ((trail.choices_push_prefix f.choice).subset hd) with rfl | hd
  · exact hconfig.reached
  · exact htrail d hd

/-- Whatever state a search enters, it can be reached, also if the move is taken back later. -/
theorem covered_of_after {limits : Limits} {c : C} {n : Nat}
    (h : Loop.after (Search.step limits) n (start m M limits c) = some s) : s.Covered :=
  Loop.after_induction (P := fun _ s => s.Covered)
    ⟨Configuration.covered_start c, by simp [start, Trail.empty]⟩
    (fun _ _ _ _ hcovered hs => hcovered.step hs) h

/-- The report of a search tells only of states that can be reached. -/
theorem covered_of_search {limits : Limits} {c : C} {turns : Nat} {r : Report C}
    (h : m.search (M := M) limits c turns = some r) : r.Covered m := by
  obtain ⟨n, -, s, hs, hfinish⟩ := Loop.run_eq_some_iff.1 h
  have hcovered := covered_of_after hs
  rcases of_step_eq_finish hfinish with hn | ⟨f, trail, backtracks, o, hf, -, rfl⟩
  · rcases of_next_eq_ends hn with ⟨g, ht, rfl⟩ | ⟨g, reason, ht, rfl, -⟩
    · exact (hcovered.config.of_settled ht).finish .accepted _
    · have hu := (hcovered.config.of_settled ht).unwind hcovered.trail
      have hnotified := hu.of_events (Configuration.events_notify _
        (.exhausted s!"backtracking exhausted: {reason}")) (by simp) (List.Subset.refl _) hu.reached
      exact hnotified.finish _ _
  · exact (hcovered.of_next hf).1.finish o backtracks

end Search

/-- **The diagram of a machine covers its runs.** Let a machine have been built.

* As a graph, its vertices are the names of the states that survive in the draft. They are distinct,
  and just they can be asked for their successors. These are the targets of the state, each once and
  in the order in which they first occur, and they are vertices.
* So from the name of each state there is a breadth-first order, for which no more turns are needed
  than there are states.
* Every state that a direct run or a search enters is in the order from the initial state, on every
  context and with every limits: up to the head of each turn, with the state entered there, and in
  the events of the report if there is one, also where a move was taken back. So are the current
  state, all states of the path, and those to which a search can return. -/
theorem diagram_covers_runs [Input C] [Rewind C M] [BEq K] {d : Draft C K} {m : Machine C K}
    (hm : d.build = .ok m) :
    (Graph.vertices m = d.survivors.map State.name ∧ (Graph.vertices m).Nodup) ∧
    (∀ name, (∃ vs, Graph.successors m name = .ok vs) ↔ name ∈ Graph.vertices m) ∧
    (∀ s ∈ d.survivors, ∃ vs, Graph.successors m s.name = .ok vs ∧
      FirstOccurrences (s.transitions.map Transition.target) vs ∧
      ∀ name ∈ vs, name ∈ Graph.vertices m) ∧
    (∀ name ∈ Graph.vertices m, ∃ order, ∀ turns, m.count ≤ turns →
      Graph.breadthFirst m name turns = some (.ok order)) ∧
    ∃ order, (∀ turns, m.count ≤ turns →
        Graph.breadthFirst m (m.stateName m.initial) turns = some (.ok order)) ∧
      ∀ limits c,
        (∀ n g, Loop.after (Configuration.step limits) n (Configuration.start m c) = some g →
          EntersOnly order g.enter.1.events ∧ m.stateName g.state ∈ order ∧
            g.path.states ⊆ order) ∧
        (∀ turns r, m.run limits c turns = some r →
          EntersOnly order r.events ∧ r.path.states ⊆ order) ∧
        (∀ n s, Loop.after (Search.step limits) n (Search.start m M limits c) = some s →
          EntersOnly order s.config.enter.1.events ∧ m.stateName s.config.state ∈ order ∧
            s.config.path.states ⊆ order ∧ ∀ d ∈ s.trail.choices, m.stateName d.state ∈ order) ∧
        ∀ turns r, m.search (M := M) limits c turns = some r →
          EntersOnly order r.events ∧ r.path.states ⊆ order := by
  obtain ⟨initial, -, hrealizes⟩ := Draft.realizes_of_build hm
  refine ⟨⟨hrealizes.names.symm, m.names_nodup⟩, fun name => Machine.exists_successors_iff,
    fun s hs => ?_, fun name hname => Machine.exists_order hname, ?_⟩
  · obtain ⟨vs, hvs, hfirst⟩ := hrealizes.firstOccurrences_successors hs
    obtain ⟨vs', hvs', hclosed⟩ := m.closed _ (Machine.exists_successors_iff.1 ⟨vs, hvs⟩)
    obtain rfl := Except.ok.inj (hvs.symm.trans hvs')
    exact ⟨vs, hvs, hfirst, hclosed⟩
  · obtain ⟨order, horder⟩ := Machine.exists_order (Machine.mem_vertices.2 ⟨m.initial, rfl⟩)
    obtain ⟨-, hmem, -⟩ := Graph.of_breadthFirst (horder m.count (Nat.le_refl _))
    have hconfig : ∀ {g : Configuration m}, g.enter.1.Covered →
        EntersOnly order g.enter.1.events ∧ m.stateName g.state ∈ order ∧ g.path.states ⊆ order :=
      fun h => ⟨fun name hname => (hmem name).2 (h.entered name hname), (hmem _).2 h.reached,
        fun name hname => (hmem name).2 (h.path name hname)⟩
    have hreport : ∀ {r : Report C}, r.Covered m →
        EntersOnly order r.events ∧ r.path.states ⊆ order :=
      fun h => ⟨fun name hname => (hmem name).2 (h.entered name hname),
        fun name hname => (hmem name).2 (h.path name hname)⟩
    refine ⟨order, horder, fun limits c => ⟨fun n g hg => ?_, fun turns r hr => ?_,
      fun n s hs => ?_, fun turns r hr => ?_⟩⟩
    · exact hconfig (Configuration.covered_of_after hg)
    · exact hreport (Configuration.covered_of_run hr)
    · have hcovered := Search.covered_of_after hs
      obtain ⟨hentered, hstate, hpath⟩ := hconfig hcovered.config
      exact ⟨hentered, hstate, hpath, fun d hd => (hmem _).2 (hcovered.trail d hd)⟩
    · exact hreport (Search.covered_of_search hr)

namespace Draft

/-- A machine for words over `a` of even length with a state to which nothing leads, from which two
transitions lead to the same state. -/
def spared : Draft (Tape Char) Char :=
  { halves with states := halves.states ++
    [((State.named "spare").transition (.towards "push")).transition (.towards "push")] }

/-- The search on `aa` guesses the middle too late at first. What it enters is in the order from the
initial state, in which the spare state is not. -/
theorem spared_covers : ∃ m, spared.build = .ok m ∧
    Graph.successors m "spare" = .ok ["push"] ∧
    Graph.breadthFirst m "push" 5 = some (.ok ["push", "shift", "match", "reduce"]) ∧
    ∃ r, m.search (M := Nat) {} (Tape.ofString "aa") 9 = some r ∧ r.backtracks = 1 ∧
      EntersOnly ["push", "shift", "match", "reduce"] r.events := by
  have hbuild : ∃ m, spared.build = .ok m ∧ Graph.successors m "spare" = .ok ["push"] ∧
      m.count = 5 ∧ m.stateName m.initial = "push" ∧
      Graph.breadthFirst m "push" 5 = some (.ok ["push", "shift", "match", "reduce"]) ∧
      ∃ r, m.search (M := Nat) {} (Tape.ofString "aa") 9 = some r ∧ r.backtracks = 1 :=
    ⟨_, rfl, by decide +kernel, rfl, rfl, by decide +kernel, _, rfl, rfl⟩
  obtain ⟨m, hm, hsuccessors, hcount, hinitial, horder, r, hr, hbacktracks⟩ := hbuild
  obtain ⟨-, -, -, -, order, horder', hcovers⟩ := diagram_covers_runs (M := Nat) hm
  have horder' := horder' 5 (Nat.le_of_eq hcount)
  rw [hinitial, horder] at horder'
  obtain rfl := Except.ok.inj (Option.some.inj horder')
  obtain ⟨-, -, -, hsearch⟩ := hcovers {} (Tape.ofString "aa")
  exact ⟨m, hm, hsuccessors, horder, r, hr, hbacktracks, (hsearch 9 r hr).1⟩

end Draft
end StateMachine
