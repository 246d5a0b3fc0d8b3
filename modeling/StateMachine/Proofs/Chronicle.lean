/-
# The events of a run tell its path

A listener who hears only the events of a run can follow it (`Chronicle`): the run enters its initial
state, and then moves on, each time leaving a state, firing a transition and entering the next state.
Before a move a search may return to a state further up on the path. At last the run tells its
outcome, of which there are four forms (`Ending`). What the listener has then is the path of the
report (`events_tell_path`).

Events are given from several points of a turn, where the configuration is only partly renewed. So
the invariant is not stated at the head of a turn but right after the state has been entered: from
there to the same point of the next turn there is exactly one move (`Configuration.Told`).
-/

import StateMachine.Proofs.Alignment

namespace StateMachine

universe u v w

variable {C : Type u} {K : Type v} {M : Type w}

/-! ## Events and paths -/

/-- The events of a move. -/
def Move.events (v : Move) : List Event := [.left v.source, .fired v, .entered v.target]

/-- The events that lead along a path without returning. -/
def Path.events (p : Path) : List Event := .entered p.start :: p.moves.toList.flatMap Move.events

/-- The events of a longer path are those of the path and then those of the added move. -/
theorem Path.events_push (p : Path) (v : Move) : (p.push v).events = p.events ++ v.events := by
  simp [events, push]

namespace Event

/-- The event tells an outcome. -/
def isVerdict : Event → Bool
  | accepted _ | rejected _ _ => true
  | _ => false

/-- The event tells of a transition. -/
def isFired : Event → Bool
  | fired _ => true
  | _ => false

/-- The event tells of a return to an earlier choice. -/
def isReturned : Event → Bool
  | returned _ => true
  | _ => false

/-- The event tells that no choice is left. -/
def isExhausted : Event → Bool
  | exhausted _ => true
  | _ => false

end Event

/-- Each move of the path leaves the state in which the moves before have ended. -/
def Path.Connected (p : Path) : Prop :=
  ∀ (n : Nat) (v : Move), p.moves[n]? = some v → v.source = (p.truncate n).last

namespace Path.Connected

variable {p : Path} {v : Move}

/-- A path without moves is connected. -/
theorem nil (start : String) : (Path.nil start).Connected := by
  intro n v hv
  simp [Path.nil] at hv

/-- A connected path stays connected if the added move begins where it ends. -/
theorem push (h : p.Connected) (hv : v.source = p.last) : (p.push v).Connected := by
  intro n w hw
  obtain ⟨hn, -⟩ := Array.getElem?_eq_some_iff.1 hw
  have hn : n < p.length + 1 := by
    rw [← length_push p v]
    exact hn
  rcases Nat.lt_succ_iff_lt_or_eq.1 hn with hlt | rfl
  · rw [moves_push_of_lt p v hlt] at hw
    rw [truncate_push p v (Nat.le_of_lt hlt)]
    exact h n w hw
  · rw [moves_push_length] at hw
    obtain rfl := Option.some.inj hw
    rw [truncate_push p v (Nat.le_refl _), truncate_length, hv]

/-- What is left of a connected path after a cut is connected. -/
theorem truncate (h : p.Connected) (k : Nat) : (p.truncate k).Connected := by
  intro n w hw
  obtain ⟨hn, -⟩ := Array.getElem?_eq_some_iff.1 hw
  have hn : n < min k p.length := by
    rw [← length_truncate]
    exact hn
  have hnk : n < k := by omega
  rw [moves_truncate_of_lt p hnk] at hw
  rw [truncate_truncate p (Nat.le_of_lt hnk)]
  exact h n w hw

end Path.Connected

/-! ## What the events of a run look like -/

/-- The given events, from the beginning of a run in the state `start` on, lead to a path. A return
cuts the path back to a shorter one, which ends in the state that the event names. -/
inductive Chronicle (start : String) : List Event → Path → Prop
  | begin : Chronicle start [.entered start] (.nil start)
  | move {es : List Event} {p : Path} (v : Move) : Chronicle start es p → v.source = p.last →
      Chronicle start (es ++ v.events) (p.push v)
  | back {es : List Event} {p : Path} (n : Nat) (v : Move) : Chronicle start es p →
      n < p.length → v.source = (p.truncate n).last →
      Chronicle start (es ++ .returned v.source :: v.events) ((p.truncate n).push v)

/-- The last events of a run that has come to the path `p`, with its outcome and the path that it
reports. A search which is stopped by its limit when it has returned reports the shorter path. -/
inductive Ending (limits : Limits) (p : Path) : Outcome → Path → List Event → Prop
  | accepted : Ending limits p .accepted p [.accepted p.last]
  | rejected (reason : String) :
      Ending limits p (.rejected reason) p [.rejected p.last reason]
  | stopped (n k : Nat) : n < p.length → limits.steps = some k →
      Ending limits p (.rejected s!"step limit of {k} transitions exceeded") (p.truncate n)
        [.returned (p.truncate n).last,
          .rejected (p.truncate n).last s!"step limit of {k} transitions exceeded"]
  | exhausted (reason : String) :
      Ending limits p (.rejected reason) p [.exhausted reason, .rejected p.last reason]

namespace Chronicle

variable {start : String} {es : List Event} {p : Path}

/-- While a run goes on it tells no outcome, nor that it is exhausted. -/
theorem not_final (h : Chronicle start es p) {e : Event} (he : e ∈ es) :
    e.isVerdict = false ∧ e.isExhausted = false := by
  have hmove : ∀ v : Move, e ∈ v.events → e.isVerdict = false ∧ e.isExhausted = false := by
    intro v hv
    simp only [Move.events, List.mem_cons, List.not_mem_nil, or_false] at hv
    rcases hv with rfl | rfl | rfl <;> exact ⟨rfl, rfl⟩
  induction h with
  | begin =>
    obtain rfl := List.mem_singleton.1 he
    exact ⟨rfl, rfl⟩
  | move v _ _ ih =>
    rcases List.mem_append.1 he with he | he
    · exact ih he
    · exact hmove v he
  | back n v _ _ _ ih =>
    rcases List.mem_append.1 he with he | he
    · exact ih he
    · rcases List.mem_cons.1 he with rfl | he
      · exact ⟨rfl, rfl⟩
      · exact hmove v he

/-- The path that a listener has is connected. -/
theorem connected (h : Chronicle start es p) : p.Connected := by
  induction h with
  | begin => exact .nil start
  | move v _ hv ih => exact ih.push hv
  | back n v _ _ hv ih => exact (ih.truncate n).push hv

end Chronicle

/-- The last event of a run tells its outcome and names the state in which the reported path ends. -/
theorem Ending.exists_concat {limits : Limits} {p q : Path} {o : Outcome} {es : List Event}
    (h : Ending limits p o q es) :
    ∃ before, es = before ++ [o.event q.last] ∧ ∀ e ∈ before, e.isVerdict = false := by
  cases h with
  | accepted => exact ⟨[], rfl, nofun⟩
  | rejected reason => exact ⟨[], rfl, nofun⟩
  | stopped n k hn hk =>
    refine ⟨[.returned (p.truncate n).last], rfl, fun e he => ?_⟩
    rw [List.mem_singleton.1 he]
    rfl
  | exhausted reason =>
    refine ⟨[.exhausted reason], rfl, fun e he => ?_⟩
    rw [List.mem_singleton.1 he]
    rfl

/-- Nothing is fired at the end of a run. -/
theorem Ending.countP_isFired {limits : Limits} {p q : Path} {o : Outcome} {es : List Event}
    (h : Ending limits p o q es) : es.countP Event.isFired = 0 := by
  cases h <;> rfl

namespace Report

/-- The events of a run, the first one first. -/
def events (r : Report C) : List Event := r.notices.map Notice.event

/-- What the events of a finished run tell, which began in the state `start`. -/
structure Tells (start : String) (limits : Limits) (r : Report C) : Prop where
  /-- They lead to the reported path. -/
  path : ∃ es p ending, r.events = es ++ ending ∧ Chronicle start es p ∧
    Ending limits p r.outcome r.path ending
  /-- The outcome is told once, at the end, with the state in which the path ends. -/
  outcome : ∃ before, r.events = before ++ [r.outcome.event r.path.last] ∧
    ∀ e ∈ before, e.isVerdict = false
  steps : r.events.countP Event.isFired = r.steps
  backtracks : r.events.countP Event.isReturned = r.backtracks

end Report

/-! ## One turn after the other -/

namespace Configuration

variable {m : Machine C K}

/-- The events so far, the first one first. -/
def events (g : Configuration m) : List Event := (g.notices.map Notice.event).reverse

/-- A notice adds its event behind the others. -/
@[simp] theorem events_notify (g : Configuration m) (e : Event) :
    (g.notify e).events = g.events ++ [e] := by
  simp [events, notify]

/-- The events of a firing, with the entrance into the next state, are those of its move. -/
theorem events_enter_fire (g : Configuration m) (i : Fin g.transitions.length) :
    (g.fire i).enter.1.events = g.events ++ (g.move i).events := by
  simp [events, enter, fire, notify, Move.events, move, stateName]

/-- A run that finishes tells its outcome last, of the state in which the path ends. -/
theorem events_finish (g : Configuration m) (o : Outcome) (backtracks : Nat) :
    (g.finish o backtracks).events = g.events ++ [o.event g.path.last] := by
  simp [events, Report.events, finish, notify]

/-- A search that returns to a choice tells the state to which it has returned. -/
theorem events_returned (g : Configuration m) (c : Choice (Fin m.count) M K) :
    (Search.returned g c).events = g.events ++ [.returned g.stateName] :=
  events_notify (g.cut c.depth) _

/-- A search without choices tells that it is exhausted and then that it rejects, for the same
reason. -/
theorem events_exhausted (g : Configuration m) (reason : String) (backtracks : Nat) :
    (Search.exhausted g reason backtracks).events = g.events ++
      [.exhausted s!"backtracking exhausted: {reason}",
        .rejected g.path.last s!"backtracking exhausted: {reason}"] := by
  rw [Search.exhausted, events_finish, events_notify, List.append_assoc]
  rfl

/-- An outcome does not tell that a search is exhausted. -/
theorem exhausted_mem_events_finish {g : Configuration m} {reason : String} {o : Outcome}
    {backtracks : Nat} (h : .exhausted reason ∈ (g.finish o backtracks).events) :
    .exhausted reason ∈ g.events := by
  rw [events_finish] at h
  rcases List.mem_append.1 h with h | h
  · exact h
  · cases o <;> simp [Outcome.event] at h

/-- The events so far lead to the path so far, and as many transitions were fired and choices
returned to as they say. -/
structure Told (g : Configuration m) (backtracks : Nat) : Prop where
  path : Chronicle (m.stateName m.initial) g.events g.path
  steps : g.events.countP Event.isFired = g.steps
  backtracks : g.events.countP Event.isReturned = backtracks

/-- The first state has been told when the run begins. -/
theorem told_start (c : C) : (start m c).enter.1.Told 0 := ⟨.begin, rfl, rfl⟩

namespace Told

variable {g : Configuration m} {backtracks : Nat}

/-- **Firing adds the events of a move.** -/
theorem fire (h : g.Told backtracks) (hlast : g.path.last = g.stateName)
    (i : Fin g.transitions.length) : (g.fire i).enter.1.Told backtracks := by
  have hevents := g.events_enter_fire i
  refine ⟨?_, ?_, ?_⟩
  · rw [hevents]
    exact h.path.move (g.move i) hlast.symm
  · rw [hevents, List.countP_append, h.steps]
    rfl
  · rw [hevents, List.countP_append, h.backtracks]
    rfl

/-- **Firing on return adds the events of a return and of a move.** -/
theorem fire_returned [Rewind C M] {c : Choice (Fin m.count) M K} (h : g.Told backtracks)
    (hc : c.depth < g.path.length) (hlast : (g.path.truncate c.depth).last = g.stateName)
    (i : Fin (Search.returned g c).transitions.length) :
    ((Search.returned g c).fire i).enter.1.Told (backtracks + 1) := by
  have hevents : ((Search.returned g c).fire i).enter.1.events =
      g.events ++ .returned g.stateName :: ((Search.returned g c).move i).events := by
    rw [events_enter_fire, events_returned, List.append_assoc]
    rfl
  refine ⟨?_, ?_, ?_⟩
  · rw [hevents]
    exact h.path.back c.depth ((Search.returned g c).move i) hc hlast.symm
  · rw [hevents, List.countP_append, h.steps]
    rfl
  · rw [hevents, List.countP_append, h.backtracks]
    rfl

/-- Going back past choices is not told. -/
theorem unwind [Rewind C M] (h : g.Told backtracks) (choices : List (Choice (Fin m.count) M K)) :
    (Search.unwind g choices).Told backtracks := by
  have hpath := Search.path_unwind g choices
  have hevents : (Search.unwind g choices).events = g.events := by
    rw [events, Search.notices_unwind, events]
  refine ⟨?_, ?_, ?_⟩
  · rw [hevents, hpath]
    exact h.path
  · rw [hevents, Search.steps_unwind]
    exact h.steps
  · rw [hevents]
    exact h.backtracks

/-- Neither is a decision at an impasse. -/
theorem of_settled [Input C] [BEq K] {e : Configuration m} {o : Outcome}
    (h : g.enter.1.Told backtracks) (ht : g.turn = .settled e o) : e.Told backtracks := by
  rcases of_turn_eq_settled ht with rfl | rfl
  · exact h
  · exact ⟨h.path, h.steps, h.backtracks⟩

variable {limits : Limits}

/-- What a report tells that adds an ending to the events so far. -/
theorem tells {r : Report C} {ending : List Event} (h : g.Told backtracks)
    (hevents : r.events = g.events ++ ending) (hending : Ending limits g.path r.outcome r.path ending)
    (hsteps : r.steps = g.steps)
    (hbacktracks : r.backtracks = backtracks + ending.countP Event.isReturned) :
    r.Tells (m.stateName m.initial) limits := by
  have hfired := hending.countP_isFired
  obtain ⟨before, rfl, hbefore⟩ := hending.exists_concat
  refine ⟨⟨_, _, _, hevents, h.path, hending⟩, ⟨g.events ++ before, ?_, ?_⟩, ?_, ?_⟩
  · rw [hevents, List.append_assoc]
  · intro e he
    rcases List.mem_append.1 he with he | he
    · exact (h.path.not_final he).1
    · exact hbefore e he
  · rw [hevents, List.countP_append, h.steps, hfired, hsteps, Nat.add_zero]
  · rw [hevents, List.countP_append, h.backtracks, hbacktracks]

/-- As long as a search goes on, it has not told that it is exhausted. -/
theorem exhausted_not_mem (h : g.Told backtracks) (reason : String) :
    .exhausted reason ∉ g.events := by
  intro he
  have hfalse := (h.path.not_final he).2
  cases hfalse

/-- A run may end with its outcome alone. -/
theorem tells_finish (h : g.Told backtracks) (o : Outcome) :
    (g.finish o backtracks).Tells (m.stateName m.initial) limits := by
  refine h.tells (events_finish g o backtracks) ?_ rfl ?_
  · cases o with
    | accepted => exact .accepted
    | rejected reason => exact .rejected reason
  · cases o <;> rfl

/-- A search may end because no choice is left. -/
theorem tells_exhausted [Rewind C M] (h : g.Told backtracks) (reason : String) :
    (Search.exhausted g reason backtracks).Tells (m.stateName m.initial) limits :=
  h.tells (events_exhausted g reason backtracks) (.exhausted _) rfl rfl

/-- A search may end because of its limit when it has returned to a choice. -/
theorem tells_stopped {c : Choice (Fin m.count) M K} (h : g.Told backtracks)
    (hc : c.depth < g.path.length) (hlast : (g.path.truncate c.depth).last = g.stateName)
    {o : Outcome} (ho : limits.exceeded g.steps = some o) :
    ((Search.returned g c).finish o (backtracks + 1)).Tells (m.stateName m.initial) limits := by
  obtain ⟨k, hk, -, rfl⟩ := Limits.exceeded_eq_some_iff.1 ho
  refine h.tells ?_ (.stopped c.depth k hc hk) rfl rfl
  rw [events_finish, events_returned, List.append_assoc, ← hlast]
  rfl

end Told

section Direct

variable [Input C] [BEq K] {limits : Limits} {c : C} {n : Nat} {g : Configuration m}

/-- **Whenever a direct run has entered a state,** its events tell the path, and they are just those
that lead along it. -/
theorem told_of_after (h : Loop.after (step limits) n (start m c) = some g) :
    g.enter.1.Told 0 ∧ g.enter.1.events = g.path.events := by
  refine Loop.after_induction
    (P := fun _ g => g.enter.1.Told 0 ∧ g.enter.1.events = g.path.events)
    ⟨told_start c, rfl⟩ ?_ h
  rintro n g g' hg ⟨htold, hevents⟩ hs
  obtain ⟨e, i, ht, -, rfl⟩ := exists_choice_of_step hs
  obtain ⟨rfl, -⟩ := of_turn_eq_choice ht
  have hlast := last_path_of_after hg
  refine ⟨htold.fire hlast i, ?_⟩
  rw [events_enter_fire, hevents]
  exact (Path.events_push _ _).symm

end Direct
end Configuration

namespace Search

section Told

variable [Input C] [Rewind C M] [BEq K] {m : Machine C K} {limits : Limits} {c : C} {n : Nat}
  {s : Search m M}

/-- What a turn has told that comes to a firing: nothing since the state was entered, or that it has
returned to a choice, to whose state the path has been cut. -/
theorem told_of_next (htold : s.config.enter.1.Told s.backtracks)
    (haligned : s.trail.Aligned s.config.path) {f : Firing m} {trail : Trail (Fin m.count) M K}
    {backtracks : Nat} (h : s.next = .fires f trail backtracks) :
    f.config = s.config.enter.1 ∧ backtracks = s.backtracks ∨
      ∃ (g : Configuration m) (d : Choice (Fin m.count) M K), g.Told s.backtracks ∧
        d.depth < g.path.length ∧ (g.path.truncate d.depth).last = g.stateName ∧
        f.config = returned g d ∧ backtracks = s.backtracks + 1 := by
  rcases of_next_eq_fires h with
    ⟨ht, -, hb⟩ | ⟨e, reason, past, d, rest, ht, hl, -, hb, hconfig, -⟩
  · exact .inl ⟨(Configuration.of_turn_eq_choice ht).1, hb⟩
  · have he : e.Told s.backtracks := htold.of_settled ht
    have hpath : (unwind e (past ++ [d])).path = s.config.path := by
      rw [path_unwind]
      rcases Configuration.of_turn_eq_settled ht with rfl | rfl <;> rfl
    have hstate : (unwind e (past ++ [d])).stateName = m.stateName d.state := by
      rw [unwind_append]
      rfl
    -- The path is not cut yet, so the move for which the choice was noted is still on it.
    obtain ⟨hdepth, hnoted⟩ := haligned.choice past.length d (by rw [hl]; simp)
    obtain ⟨v, -, hv, hsource, -⟩ := hnoted
    have hu := he.unwind (past ++ [d])
    refine .inr ⟨unwind e (past ++ [d]), d, hu, ?_, ?_, hconfig, hb⟩
    · rw [hpath]
      omega
    · rw [hstate, ← hsource]
      exact (hu.path.connected d.depth v (by rw [hpath]; exact hv)).symm

/-- **Whenever a search has entered a state,** its events tell the path. -/
theorem told_of_after (h : Loop.after (step limits) n (start m M limits c) = some s) :
    s.config.enter.1.Told s.backtracks := by
  refine Loop.after_induction (P := fun _ s => s.config.enter.1.Told s.backtracks)
    (Configuration.told_start c) ?_ h
  rintro n t t' ht htold hs
  obtain ⟨⟨e, i⟩, trail, b, hf, rfl⟩ := exists_fires_of_step hs
  rcases told_of_next htold (aligned_of_after ht) hf with
    ⟨rfl, rfl⟩ | ⟨g, d, hg, hd, hlast, rfl, rfl⟩
  · have hlast := last_path_of_after ht
    exact htold.fire hlast i
  · exact hg.fire_returned hd hlast i

/-- The turn comes to a rejection, and no choice on the trail has an untried eligible transition. -/
def RunsOut (s : Search m M) : Prop :=
  ∃ g reason, s.config.turn = .settled g (.rejected reason) ∧
    ∀ past c rest, s.trail.choices = past ++ c :: rest → Spent (unwind g (past ++ [c])) c

/-- A search that runs out says so. -/
theorem RunsOut.exists_exhausted (h : s.RunsOut) (limits : Limits) :
    ∃ r, step limits s = .finish r ∧ ∃ reason, .exhausted reason ∈ r.events := by
  obtain ⟨g, reason, ht, hspent⟩ := h
  refine ⟨exhausted (unwind g s.trail.choices) reason s.backtracks, ?_,
    s!"backtracking exhausted: {reason}", ?_⟩
  · rw [step_eq_carryOut, next, ht]
    exact congrArg (Next.carryOut limits) (nextAmong_of_spent hspent)
  · rw [Configuration.events_exhausted]
    simp

/-- **What a search reports tells how it went,** and it tells that the search is exhausted only if
it has run out of choices. -/
theorem tells_of_finish (hs : Loop.after (step limits) n (start m M limits c) = some s)
    {r : Report C} (h : step limits s = .finish r) :
    r.Tells (m.stateName m.initial) limits ∧
      ∀ reason, .exhausted reason ∈ r.events → s.RunsOut := by
  have htold := told_of_after hs
  rcases of_step_eq_finish h with hn | ⟨⟨e, i⟩, trail, b, o, hf, he, rfl⟩
  · rcases of_next_eq_ends hn with ⟨g, ht, rfl⟩ | ⟨g, reason, ht, rfl, hspent⟩
    · have hg := htold.of_settled ht
      refine ⟨hg.tells_finish .accepted, fun reason hr => ?_⟩
      exact absurd (Configuration.exhausted_mem_events_finish hr) (hg.exhausted_not_mem reason)
    · have hg := (htold.of_settled ht).unwind s.trail.choices
      exact ⟨hg.tells_exhausted reason, fun _ _ => ⟨g, reason, ht, hspent⟩⟩
  · rcases told_of_next htold (aligned_of_after hs) hf with
      ⟨rfl, rfl⟩ | ⟨g, d, hg, hd, hlast, rfl, rfl⟩
    · refine ⟨htold.tells_finish o, fun reason hr => ?_⟩
      exact absurd (Configuration.exhausted_mem_events_finish hr) (htold.exhausted_not_mem reason)
    · refine ⟨hg.tells_stopped hd hlast he, fun reason hr => ?_⟩
      have hr := Configuration.exhausted_mem_events_finish hr
      rw [Configuration.events_returned] at hr
      rcases List.mem_append.1 hr with hr | hr
      · exact absurd hr (hg.exhausted_not_mem reason)
      · simp at hr

end Told
end Search

/-- **The events of a run tell its path.** Let a direct run or a search, under any limits, have come
to a report.

* Its events begin with the entrance into the initial state, go on with moves, each possibly after a
  return to a state further up, and end in one of four ways; who follows them comes to the reported
  path. The outcome is told once, at the end, with the state in which this path ends. The events tell
  as many firings and returns as are reported (`Report.Tells`).
* The events of a direct run are those that lead along its path, and its outcome.
* A search tells that it is exhausted if and only if it has run out of choices. -/
theorem events_tell_path [Input C] [Rewind C M] [BEq K] (m : Machine C K) (limits : Limits) (c : C) :
    (∀ turns r, m.run limits c turns = some r →
      r.Tells (m.stateName m.initial) limits ∧
      r.events = r.path.events ++ [r.outcome.event r.path.last]) ∧
    ∀ turns r, m.search (M := M) limits c turns = some r →
      r.Tells (m.stateName m.initial) limits ∧
      ((∃ reason, .exhausted reason ∈ r.events) ↔
        ∃ n s, Loop.after (Search.step limits) n (Search.start m M limits c) = some s ∧
          s.RunsOut) := by
  refine ⟨fun turns r hr => ?_, fun turns r hr => ?_⟩
  · obtain ⟨n, -, g, hg, hfinish⟩ := Loop.run_eq_some_iff.1 hr
    obtain ⟨htold, hevents⟩ := Configuration.told_of_after hg
    rcases Configuration.of_step_eq_finish hfinish with ⟨e, o, ht, rfl⟩ | ⟨e, i, o, ht, -, rfl⟩
    · refine ⟨(htold.of_settled ht).tells_finish o, ?_⟩
      have he : e.events = e.path.events := by
        rcases Configuration.of_turn_eq_settled ht with rfl | rfl <;> exact hevents
      rw [Configuration.events_finish, he]
      rfl
    · obtain ⟨rfl, -⟩ := Configuration.of_turn_eq_choice ht
      refine ⟨htold.tells_finish o, ?_⟩
      rw [Configuration.events_finish, hevents]
      rfl
  · obtain ⟨n, -, s, hs, hfinish⟩ := Loop.run_eq_some_iff.1 hr
    obtain ⟨htells, hexhausted⟩ := Search.tells_of_finish hs hfinish
    refine ⟨htells, fun ⟨reason, he⟩ => ⟨n, s, hs, hexhausted reason he⟩, ?_⟩
    rintro ⟨n', s', hs', hout⟩
    obtain ⟨r', hr', hreason⟩ := hout.exists_exhausted limits
    obtain rfl := Loop.run_unique hr (Loop.run_eq_some_iff.2 ⟨n', Nat.lt_succ_self n', s', hs', hr'⟩)
    exact hreason

/-- On `a`, a direct run guesses the middle after the only symbol and is rejected. A search returns
once, to guess it before the symbol, and then runs out of choices. -/
theorem palindrome_tells :
    (∃ r, Palindrome.machine.run {} (Tape.ofString "a") 4 = some r ∧
      r.Tells "push" {} ∧ r.events = r.path.events ++ [r.outcome.event "match"]) ∧
    ∃ r, Palindrome.machine.search (M := Nat) {} (Tape.ofString "a") 5 = some r ∧
      r.Tells "push" {} ∧ r.backtracks = 1 ∧
      ∃ n s, Loop.after (Search.step {}) n
          (Search.start Palindrome.machine Nat {} (Tape.ofString "a")) = some s ∧ s.RunsOut := by
  have htell := events_tell_path (M := Nat) Palindrome.machine {} (Tape.ofString "a")
  have hrun : ∃ r, Palindrome.machine.run {} (Tape.ofString "a") 4 = some r ∧
      r.path.last = "match" := ⟨_, rfl, rfl⟩
  have hsearch : ∃ r, Palindrome.machine.search (M := Nat) {} (Tape.ofString "a") 5 = some r ∧
      r.backtracks = 1 ∧ ∃ reason, r.events[14]? = some (.exhausted reason) := ⟨_, rfl, rfl, _, rfl⟩
  refine ⟨?_, ?_⟩
  · obtain ⟨r, hr, hlast⟩ := hrun
    obtain ⟨htells, hevents⟩ := htell.1 4 r hr
    rw [hlast] at hevents
    exact ⟨r, hr, htells, hevents⟩
  · obtain ⟨r, hr, hbacktracks, reason, hreason⟩ := hsearch
    obtain ⟨htells, hexhausted⟩ := htell.2 5 r hr
    exact ⟨r, hr, htells, hbacktracks, hexhausted.1 ⟨reason, List.mem_of_getElem? hreason⟩⟩

end StateMachine
