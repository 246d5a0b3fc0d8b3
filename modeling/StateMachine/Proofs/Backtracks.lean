/-
# What the backtracks count

The backtracks of a report are meant to be the alternatives that were taken after a rejection: of
the transitions that were fired, those for which the search had returned to a choice. But a search
counts, and tells, its return before it asks the limit on steps whether the alternative may be
fired. If the limit refuses it, the run ends there with one backtrack more than it has fired
alternatives (`backtracks_count_alternatives`). This is the only way to come to another number: a
search that accepts or runs out of choices has fired an alternative for every backtrack, and so has
one that is refused the first choice of a state.

Each moment at which a transition is fired is kept in a list (`Search.firedWithin`), together with
the way in which it is come to, so that one list serves for the steps and for the alternatives.
-/

import StateMachine.Proofs.Work

namespace StateMachine

universe u v w

variable {C : Type u} {K : Type v} {M : Type w}

/-! ## Reports that end on a return -/

/-- The last thing told before the outcome is a return to a choice. -/
def Report.EndsOnReturn (r : Report C) : Prop :=
  ∃ before name verdict, r.events = before ++ [.returned name, verdict]

/-- A report does not end on a return if the event before its verdict is something else. -/
theorem Report.not_endsOnReturn_of_events {r : Report C} {es : List Event} {e verdict : Event}
    (h : r.events = es ++ [e, verdict]) (he : e.isReturned = false) : ¬ r.EndsOnReturn := by
  rintro ⟨before, name, verdict', hr⟩
  rw [h] at hr
  obtain ⟨-, hlast⟩ := List.append_inj' hr rfl
  cases hlast
  cases he

/-- A run tells that it is exhausted just before its outcome. -/
theorem Ending.eq_of_exhausted_mem {limits : Limits} {p q : Path} {o : Outcome} {es : List Event}
    {reason : String} (h : Ending limits p o q es) (hmem : .exhausted reason ∈ es) :
    es = [.exhausted reason, .rejected q.last reason] := by
  cases h with
  | accepted => simp at hmem
  | rejected reason => simp at hmem
  | stopped n k hn hk => simp at hmem
  | exhausted reason =>
    obtain rfl : _ = reason := by simpa using hmem
    rfl

/-- So it does not end on a return then. -/
theorem Report.Tells.not_endsOnReturn {start : String} {limits : Limits} {r : Report C}
    (h : r.Tells start limits) {reason : String} (hmem : .exhausted reason ∈ r.events) :
    ¬ r.EndsOnReturn := by
  obtain ⟨es, p, ending, hevents, hchronicle, hending⟩ := h.path
  rw [hevents] at hmem
  rcases List.mem_append.1 hmem with hmem | hmem
  · have hfalse := (hchronicle.not_final hmem).2
    cases hfalse
  · rw [hending.eq_of_exhausted_mem hmem] at hevents
    exact Report.not_endsOnReturn_of_events hevents rfl

namespace Configuration

variable {m : Machine C K} {g : Configuration m}

/-- Entering a state is told once. -/
theorem events_enter (g : Configuration m) :
    g.enter.1.events = g.events ++ [.entered g.stateName] := by
  simp [enter, events, notify]

/-- The decision at an impasse is not told before the outcome. -/
theorem events_of_settled [Input C] [BEq K] {e : Configuration m} {o : Outcome}
    (h : g.turn = .settled e o) : e.events = g.enter.1.events := by
  rcases of_turn_eq_settled h with rfl | rfl <;> rfl

/-- A run that ends in a state it has just entered does not end on a return. -/
theorem not_endsOnReturn_of_entered {e : Configuration m} (h : e.events = g.enter.1.events)
    (o : Outcome) (backtracks : Nat) : ¬ (e.finish o backtracks).EndsOnReturn := by
  have hevents := events_finish e o backtracks
  rw [h, events_enter, List.append_assoc] at hevents
  exact Report.not_endsOnReturn_of_events hevents rfl

/-- One that ends where it has returned to a choice does. -/
theorem endsOnReturn_returned [Rewind C M] (g : Configuration m) (d : Choice (Fin m.count) M K)
    (o : Outcome) (backtracks : Nat) :
    ((Search.returned g d).finish o backtracks).EndsOnReturn := by
  refine ⟨g.events, g.stateName, o.event (Search.returned g d).path.last, ?_⟩
  rw [events_finish, events_returned, List.append_assoc]
  rfl

end Configuration

namespace Search

variable [Input C] [Rewind C M] [BEq K] {m : Machine C K} {limits : Limits} {s t : Search m M}
  {r : Report C}

/-! ## The transitions that are fired -/

/-- The turn comes to a rejection, so that what it fires, if anything, is an alternative: it is
fired from a choice on the trail and not as the first choice of a state that has been entered. -/
def retries (s : Search m M) : Bool :=
  match s.config.turn with
  | .settled _ (.rejected _) => true
  | _ => false

/-- The heads of the turns in which a search fires a transition, within the given number of turns
and in their order. -/
def firedWithin (limits : Limits) : Nat → Search m M → List (Search m M)
  | 0, _ => []
  | turns + 1, s =>
    match step limits s with
    | .continue t => s :: firedWithin limits turns t
    | .finish _ => []

/-- How many of the transitions that a search fires are alternatives. -/
def alternativesWithin (limits : Limits) (turns : Nat) (s : Search m M) : Nat :=
  (firedWithin limits turns s).countP retries

omit [Input C] in
/-- A search that returns takes up one of its choices, with a later transition than the one noted. -/
theorem exists_choice_of_nextAmong {reason : String} {trail trail' : Trail (Fin m.count) M K}
    {b b' : Nat} {l : List (Choice (Fin m.count) M K)} {g : Configuration m} {f : Firing m}
    (h : nextAmong reason trail b l g = .fires f trail' b') :
    ∃ d ∈ l, f.config.state = d.state ∧ d.taken < f.index := by
  induction l generalizing g with
  | nil => cases h
  | cons c rest ih =>
    rw [nextAmong] at h
    split at h
    · obtain ⟨d, hd, hf⟩ := ih h
      exact ⟨d, List.mem_cons_of_mem c hd, hf⟩
    · rename_i i hi
      cases h
      exact ⟨c, List.mem_cons_self, rfl, (Configuration.select_eq_some_iff.1 hi).1⟩

/-- **What a turn comes to fire.** It is an alternative, a later transition of a choice on the trail,
and counts one backtrack more; or it is the first choice of the state that has been entered. -/
theorem retries_of_next {f : Firing m} {trail : Trail (Fin m.count) M K} {b : Nat}
    (h : s.next = .fires f trail b) :
    (s.retries = true ∧ b = s.backtracks + 1 ∧
        ∃ d ∈ s.trail.choices, f.config.state = d.state ∧ d.taken < f.index) ∨
      (s.retries = false ∧ b = s.backtracks ∧ s.config.turn = .choice f.config f.index) := by
  rcases of_next_eq_fires h with ⟨ht, -, hb⟩ | ⟨g, reason, past, d, rest, ht, -, -, hb, -, -⟩
  · refine .inr ⟨?_, hb, ht⟩
    rw [retries, ht]
  · rw [next, ht] at h
    refine .inl ⟨?_, hb, exists_choice_of_nextAmong h⟩
    rw [retries, ht]

/-- Each transition that is kept in the list is fired in one of these two ways. -/
theorem exists_fires_of_mem {turns : Nat} (h : t ∈ firedWithin limits turns s) :
    ∃ f trail b, t.next = .fires f trail b ∧
      ((t.retries = true ∧ ∃ d ∈ t.trail.choices, f.config.state = d.state ∧ d.taken < f.index) ∨
        (t.retries = false ∧ t.config.turn = .choice f.config f.index)) := by
  induction turns generalizing s with
  | zero => cases h
  | succ turns ih =>
    rw [firedWithin] at h
    cases hs : step limits s with
    | finish r =>
      rw [hs] at h
      cases h
    | «continue» u =>
      rw [hs] at h
      rcases List.mem_cons.1 h with rfl | h
      · obtain ⟨f, trail, b, hf, -⟩ := exists_fires_of_step hs
        have hway := retries_of_next hf
        exact ⟨f, trail, b, hf, hway.imp (fun h => ⟨h.1, h.2.2⟩) fun h => ⟨h.1, h.2.2⟩⟩
      · exact ih h

/-- What a turn adds that goes on: a step, and a backtrack if it fires an alternative. -/
theorem counts_of_step (h : step limits s = .continue t) :
    t.config.steps = s.config.steps + 1 ∧
      t.backtracks = s.backtracks + if s.retries then 1 else 0 := by
  obtain ⟨hsteps, -⟩ := pops_of_step h
  obtain ⟨f, trail, b, hf, rfl⟩ := exists_fires_of_step h
  refine ⟨hsteps, ?_⟩
  rcases retries_of_next hf with ⟨hretries, hb, -⟩ | ⟨hretries, hb, -⟩
  · rw [hb, hretries]
    rfl
  · rw [hb, hretries]
    rfl

/-- **Until its last turn,** a search has counted a step for each transition it has fired, and a
backtrack for each alternative. -/
theorem exists_last_of_run {turns : Nat} (h : Loop.run (step limits) turns s = some r) :
    ∃ t : Search m M, step limits t = .finish r ∧
      t.config.steps = s.config.steps + (firedWithin limits turns s).length ∧
      t.backtracks = s.backtracks + alternativesWithin limits turns s := by
  -- The first transition is fired before the others, so the counts at its turn are arbitrary.
  induction turns generalizing s with
  | zero => cases h
  | succ turns ih =>
    rw [Loop.run] at h
    rw [alternativesWithin, firedWithin]
    cases hs : step limits s with
    | finish r' =>
      rw [hs] at h
      obtain rfl := Option.some.inj h
      exact ⟨s, hs, rfl, rfl⟩
    | «continue» u =>
      rw [hs] at h
      obtain ⟨t, ht, hsteps, hbacktracks⟩ := ih h
      obtain ⟨hstep, hback⟩ := counts_of_step hs
      refine ⟨t, ht, ?_, ?_⟩
      · rw [hsteps, hstep, List.length_cons]
        omega
      · rw [hbacktracks, hback, alternativesWithin, List.countP_cons]
        omega

/-! ## The last turn -/

/-- **The last turn counts a backtrack only if it ends on the return.** Then the limit on steps has
refused the alternative. -/
theorem backtracks_of_step_finish (h : step limits s = .finish r) :
    (r.backtracks = s.backtracks ∧ ¬ r.EndsOnReturn) ∨
      (r.backtracks = s.backtracks + 1 ∧ r.EndsOnReturn ∧ ∃ k, limits.steps = some k ∧
        k ≤ r.steps ∧ r.outcome = .rejected s!"step limit of {k} transitions exceeded") := by
  rcases of_step_eq_finish h with hn | ⟨⟨e, i⟩, trail, b, o, hf, ho, rfl⟩
  · rcases of_next_eq_ends hn with ⟨g, ht, rfl⟩ | ⟨g, reason, ht, rfl, -⟩
    · have hevents := Configuration.events_of_settled ht
      exact .inl ⟨rfl, Configuration.not_endsOnReturn_of_entered hevents _ _⟩
    · have hevents := Configuration.events_exhausted (unwind g s.trail.choices) reason s.backtracks
      exact .inl ⟨rfl, Report.not_endsOnReturn_of_events hevents rfl⟩
  · rcases of_next_eq_fires hf with ⟨ht, -, rfl⟩ | ⟨g, reason, past, d, rest, -, -, -, rfl, he, -⟩
    · obtain ⟨rfl, -⟩ := Configuration.of_turn_eq_choice ht
      exact .inl ⟨rfl, Configuration.not_endsOnReturn_of_entered rfl _ _⟩
    · obtain ⟨k, hk, hle, rfl⟩ := Limits.exceeded_eq_some_iff.1 ho
      obtain rfl : e = returned (unwind g (past ++ [d])) d := he
      exact .inr ⟨rfl, Configuration.endsOnReturn_returned _ d _ _, k, hk, hle, rfl⟩

/-- A search fires no more transitions than its limit allows. -/
theorem steps_le_of_limit {turns n : Nat} {c : C} (hn : limits.steps = some n)
    (h : m.search (M := M) limits c turns = some r) : r.steps ≤ n := by
  obtain ⟨steps, trail⟩ := limits
  obtain rfl : steps = some n := hn
  have hlimited : ∃ r', m.search (M := M) ⟨some n, trail⟩ c (n + 1) = some r' ∧ r'.steps ≤ n := by
    refine (Search.metered m M trail).exists_run_limited (s := Search.start m M _ c) rfl ?_ n
    rintro n s r' ⟨f, trail', b, hf, backtracks, rfl⟩
    have hsteps := Search.steps_of_next.2 f trail' b hf
    exact hsteps
  obtain ⟨r', hr', hle⟩ := hlimited
  rw [Loop.run_unique h hr']
  exact hle

end Search

/-- **Backtracks count the alternatives that are fired, but for one that the limit refuses.** Let a
search, under any limits, have come to a report.

* Its steps are the transitions it has fired. Each of them is either an alternative, fired from a
  choice on the trail and later than the transition noted there, or the first choice of the state
  that has just been entered.
* Unless the report ends on a return, its backtracks are those of them that are alternatives. In
  particular this is so if the search has accepted or is exhausted, and if there is no limit on
  steps.
* If it ends on a return, there is one backtrack more. The limit has stopped the search then, when
  it had fired as many transitions as it may and was about to fire an alternative. -/
theorem backtracks_count_alternatives [Input C] [Rewind C M] [BEq K] (m : Machine C K)
    (limits : Limits) (c : C) {turns : Nat} {r : Report C}
    (h : m.search (M := M) limits c turns = some r) :
    (r.steps = (Search.firedWithin limits turns (Search.start m M limits c)).length ∧
      ∀ s ∈ Search.firedWithin limits turns (Search.start m M limits c),
        ∃ f trail b, s.next = .fires f trail b ∧
          ((s.retries = true ∧
              ∃ d ∈ s.trail.choices, f.config.state = d.state ∧ d.taken < f.index) ∨
            (s.retries = false ∧ s.config.turn = .choice f.config f.index))) ∧
    (¬ r.EndsOnReturn →
      r.backtracks = Search.alternativesWithin limits turns (Search.start m M limits c)) ∧
    (r.outcome = .accepted ∨ (∃ reason, .exhausted reason ∈ r.events) ∨ limits.steps = none →
      ¬ r.EndsOnReturn) ∧
    (r.EndsOnReturn →
      r.backtracks = Search.alternativesWithin limits turns (Search.start m M limits c) + 1 ∧
      ∃ k, limits.steps = some k ∧ r.steps = k ∧
        r.outcome = .rejected s!"step limit of {k} transitions exceeded") := by
  obtain ⟨t, ht, hsteps, hbacktracks⟩ := Search.exists_last_of_run h
  have hstart : t.backtracks =
      Search.alternativesWithin limits turns (Search.start m M limits c) :=
    hbacktracks.trans (Nat.zero_add _)
  have hlast := Search.backtracks_of_step_finish ht
  refine ⟨⟨?_, fun s hs => Search.exists_fires_of_mem hs⟩, fun hr => ?_, ?_, fun hr => ?_⟩
  · rw [Search.steps_of_step_finish ht, hsteps]
    exact Nat.zero_add _
  · rcases hlast with ⟨heq, -⟩ | ⟨-, hr', -⟩
    · rw [heq, hstart]
    · exact absurd hr' hr
  · rintro hend hr
    rcases hlast with ⟨-, hr'⟩ | ⟨-, -, k, hk, -, ho⟩
    · exact hr' hr
    · rcases hend with haccepted | ⟨reason, hexhausted⟩ | hnone
      · rw [haccepted] at ho
        cases ho
      · obtain ⟨n, -, s, hs, hfinish⟩ := Loop.run_eq_some_iff.1 h
        have htells := (Search.tells_of_finish hs hfinish).1
        exact htells.not_endsOnReturn hexhausted hr
      · rw [hnone] at hk
        cases hk
  · rcases hlast with ⟨-, hr'⟩ | ⟨heq, -, k, hk, hle, ho⟩
    · exact absurd hr hr'
    · have hle' := Search.steps_le_of_limit hk h
      exact ⟨by rw [heq, hstart], k, hk, Nat.le_antisymm hle' hle, ho⟩

/-- On `aa` a search returns once, after five transitions, fires an alternative and accepts. With a
limit of five it returns as well, but may not fire: it reports a backtrack and no alternative. -/
theorem palindrome_backtracks :
    (∃ r, Palindrome.machine.search (M := Nat) {} (Tape.ofString "aa") 9 = some r ∧
      r.outcome = .accepted ∧ r.backtracks = 1 ∧
      Search.alternativesWithin {} 9 (Search.start Palindrome.machine Nat {} (Tape.ofString "aa")) =
        1) ∧
    ∃ r, Palindrome.machine.search (M := Nat) ⟨some 5, none⟩ (Tape.ofString "aa") 6 = some r ∧
      r.EndsOnReturn ∧ r.steps = 5 ∧ r.backtracks = 1 ∧
      Search.alternativesWithin ⟨some 5, none⟩ 6
        (Search.start Palindrome.machine Nat ⟨some 5, none⟩ (Tape.ofString "aa")) = 0 := by
  have hfree : ∃ r, Palindrome.machine.search (M := Nat) {} (Tape.ofString "aa") 9 = some r ∧
      r.outcome = .accepted ∧ r.backtracks = 1 := ⟨_, rfl, rfl, rfl⟩
  have hlimited : ∃ r, Palindrome.machine.search (M := Nat) ⟨some 5, none⟩ (Tape.ofString "aa") 6 =
      some r ∧ (∃ verdict, r.events.drop 16 = [.returned "push", verdict]) ∧ r.backtracks = 1 :=
    ⟨_, rfl, ⟨_, rfl⟩, rfl⟩
  constructor
  · obtain ⟨r, hr, ho, hone⟩ := hfree
    obtain ⟨-, hcount, hend, -⟩ := backtracks_count_alternatives _ _ _ hr
    exact ⟨r, hr, ho, hone, (hcount (hend (.inl ho))).symm.trans hone⟩
  · obtain ⟨r, hr, ⟨verdict, hdrop⟩, hone⟩ := hlimited
    have hreturn : r.EndsOnReturn :=
      ⟨r.events.take 16, "push", verdict, by rw [← hdrop, List.take_append_drop]⟩
    obtain ⟨-, -, -, hstopped⟩ := backtracks_count_alternatives _ _ _ hr
    obtain ⟨hcount, k, hk, hsteps, -⟩ := hstopped hreturn
    obtain rfl := Option.some.inj hk
    exact ⟨r, hr, hreturn, hsteps, hone, Nat.succ.inj (hcount.symm.trans hone)⟩

end StateMachine
