/-
# A search extends a direct run

As long as nothing is rejected, a search does what a direct run does: it is in the same
configuration and has not returned to a choice (`Search.Accompanies`). So where a direct run accepts
or is stopped by its limit, a search ends with the same report, however many choices it remembers.

Where a direct run is rejected, by an action or by the decision at an impasse, a search would return
to a choice. One that may not remember any is exhausted at this point, and tells the reason of the
direct run. The reason for a rejection does not show whether it was the limit, since an action may
give the same text; hence `Machine.Settles` and `Machine.StopsAtLimit`.
-/

import StateMachine.Proofs.Alignment

namespace StateMachine

universe u v w

variable {C : Type u} {K : Type v} {M : Type w}

section Endings

variable [Input C] [BEq K] (m : Machine C K) (limits : Limits) (c : C)

/-- The direct run comes to an outcome, by an action or by the decision at an impasse. -/
def Machine.Settles : Prop :=
  ∃ n g e o, Loop.after (Configuration.step limits) n (Configuration.start m c) = some g ∧
    g.turn = .settled e o

/-- The direct run comes to a transition that its limit forbids. -/
def Machine.StopsAtLimit : Prop :=
  ∃ n g e i, Loop.after (Configuration.step limits) n (Configuration.start m c) = some g ∧
    g.turn = .choice e i ∧ limits.exceeded e.steps ≠ none

end Endings

namespace Configuration

variable [Input C] [BEq K] {m : Machine C K} {limits : Limits} {g e : Configuration m}

/-- An outcome that a turn settles is the one reported. -/
theorem eq_finish_of_settled {r : Report C} {o : Outcome} (h : g.turn = .settled e o)
    (hr : step limits g = .finish r) : r = e.finish o 0 := by
  rw [step_of_settled h] at hr
  cases hr
  rfl

end Configuration

section LastTurn

variable [Input C] [BEq K] {m : Machine C K} {limits : Limits} {c : C} {n : Nat}
  {g e : Configuration m} {o : Outcome}

/-- A run that is stopped by its limit does not settle the outcome in its last turn. -/
theorem not_settled_of_stopsAtLimit (h : m.StopsAtLimit limits c)
    (hg : Loop.after (Configuration.step limits) n (Configuration.start m c) = some g)
    (ht : g.turn = .settled e o) : False := by
  obtain ⟨n', g', e', i, hg', hchoice, hexceeded⟩ := h
  obtain ⟨o', ho'⟩ := Option.ne_none_iff_exists'.1 hexceeded
  have hsettled : Configuration.step limits g = .finish (e.finish o 0) :=
    Configuration.step_of_settled ht
  obtain rfl := Loop.last_unique hg hsettled hg' (Configuration.step_of_exceeded hchoice ho')
  rw [ht] at hchoice
  cases hchoice

/-- A run that settles the outcome does so in its last turn. -/
theorem exists_settled_of_settles (h : m.Settles limits c)
    (hg : Loop.after (Configuration.step limits) n (Configuration.start m c) = some g)
    {r : Report C} (hr : Configuration.step limits g = .finish r) :
    ∃ e o, g.turn = .settled e o := by
  obtain ⟨n', g', e', o', hg', hsettled⟩ := h
  obtain rfl := Loop.last_unique hg hr hg' (Configuration.step_of_settled hsettled)
  exact ⟨e', o', hsettled⟩

end LastTurn

namespace Search

variable [Input C] [Rewind C M] [BEq K] {m : Machine C K} {steps L L₀ : Option Nat}

/-- The search is where the direct run is, and has not returned to a choice. -/
def Accompanies (g : Configuration m) (s : Search m M) : Prop := s.config = g ∧ s.backtracks = 0

/-- **A search goes on as the direct run does.** -/
theorem Accompanies.step {g g' : Configuration m} {s : Search m M} (h : Accompanies g s)
    (hg : Configuration.step ⟨steps, L₀⟩ g = .continue g') :
    ∃ s', Search.step ⟨steps, L⟩ s = .continue s' ∧ Accompanies g' s' := by
  obtain ⟨rfl, hb⟩ := h
  obtain ⟨e, i, ht, he, rfl⟩ := Configuration.exists_choice_of_step hg
  refine ⟨⟨e.fire i, s.trail.push (choiceOf e i), 0⟩, ?_, rfl, rfl⟩
  rw [Search.step, ht, hb]
  exact fire_of_exceeded he i s.trail 0

/-- At the head of every turn to which the direct run gets, the search accompanies it. -/
theorem accompanies_of_after {c : C} {n : Nat} {g : Configuration m}
    (h : Loop.after (Configuration.step ⟨steps, L₀⟩) n (Configuration.start m c) = some g) :
    ∃ s, Loop.after (Search.step ⟨steps, L⟩) n (start m M ⟨steps, L⟩ c) = some s ∧
      Accompanies g s := by
  have hstart : Accompanies (Configuration.start m c) (start m M ⟨steps, L⟩ c) := ⟨rfl, rfl⟩
  exact Loop.after_simulation (fun hR hg => hR.step hg) hstart h

section LastTurn

variable {g e : Configuration m} {s : Search m M} {limits : Limits}

/-- Where the direct run accepts, the search accepts. -/
theorem Accompanies.step_of_accepted (h : Accompanies g s) (ht : g.turn = .settled e .accepted) :
    Search.step limits s = .finish (e.finish .accepted 0) := by
  rw [Search.step, h.1, ht, h.2]

/-- Where the direct run is stopped by its limit, so is the search. -/
theorem Accompanies.step_of_exceeded (h : Accompanies g s) {i : Fin e.transitions.length}
    (ht : g.turn = .choice e i) {o : Outcome} (ho : limits.exceeded e.steps = some o) :
    Search.step limits s = .finish (e.finish o 0) := by
  rw [Search.step, h.1, ht, h.2]
  simp only [fire, ho]

/-- Where the direct run is rejected, the search is exhausted if there is no choice on its trail. -/
theorem Accompanies.step_of_rejected (h : Accompanies g s) {reason : String}
    (ht : g.turn = .settled e (.rejected reason)) (htrail : s.trail.choices = []) :
    Search.step limits s = .finish (exhausted e reason 0) := by
  rw [Search.step, h.1, ht, h.2]
  simp only [htrail, resume]

end LastTurn

section Result

variable {c : C} {n turns : Nat} (hn : n < turns) {g e : Configuration m}
  (hg : Loop.after (Configuration.step ⟨steps, L₀⟩) n (Configuration.start m c) = some g)

include hn hg

/-- **What a direct run comes to without a rejection** is what a search comes to. -/
theorem search_of_not_rejected {r : Report C}
    (hr : Configuration.step ⟨steps, L₀⟩ g = .finish r)
    (hrejected : ∀ e reason, g.turn ≠ .settled e (.rejected reason)) :
    m.search (M := M) ⟨steps, L⟩ c turns = some r := by
  obtain ⟨s, hs, haccompanies⟩ := accompanies_of_after (M := M) (L := L) hg
  refine Loop.run_eq_some_iff.2 ⟨n, hn, s, hs, ?_⟩
  rcases Configuration.of_step_eq_finish hr with ⟨e, o, ht, rfl⟩ | ⟨e, i, o, ht, ho, rfl⟩
  · cases o with
    | accepted => exact haccompanies.step_of_accepted ht
    | rejected reason => exact absurd ht (hrejected e reason)
  · exact haccompanies.step_of_exceeded ht ho

/-- **Where a direct run is rejected,** a search that remembers nothing is exhausted. -/
theorem search_of_rejected {reason : String} (ht : g.turn = .settled e (.rejected reason)) :
    m.search (M := M) ⟨steps, some 0⟩ c turns = some (exhausted e reason 0) := by
  obtain ⟨s, hs, haccompanies⟩ := accompanies_of_after (M := M) (L := some 0) hg
  have hlength : s.trail.length ≤ 0 := (trail_limit_of_after hs).2 0 rfl
  have htrail : s.trail.choices = [] := List.eq_nil_of_length_eq_zero (Nat.le_zero.1 hlength)
  exact Loop.run_eq_some_iff.2 ⟨n, hn, s, hs, haccompanies.step_of_rejected ht htrail⟩

end Result
end Search

/-- **A search extends a direct run** with the same limit on steps.

* If the direct run accepts, or is stopped by the limit, every search ends with the same report, in
  which there are no backtracks.
* If the direct run is rejected by an action or by the decision at an impasse, a search that
  remembers no choice is exhausted, for the same reason, with the same path, context and number of
  steps, and without backtracks. -/
theorem search_extends_run [Input C] [Rewind C M] [BEq K] (m : Machine C K)
    (steps L L₀ : Option Nat) (c : C) {turns : Nat} {r : Report C}
    (hr : m.run ⟨steps, L₀⟩ c turns = some r) :
    (r.outcome = .accepted ∨ m.StopsAtLimit ⟨steps, L₀⟩ c →
      m.search (M := M) ⟨steps, L⟩ c turns = some r ∧ r.backtracks = 0) ∧
    ∀ reason, m.Settles ⟨steps, L₀⟩ c → r.outcome = .rejected reason →
      ∃ r', m.search (M := M) ⟨steps, some 0⟩ c turns = some r' ∧
        r'.outcome = .rejected s!"backtracking exhausted: {reason}" ∧
        r'.path = r.path ∧ r'.context = r.context ∧ r'.steps = r.steps ∧ r'.backtracks = 0 := by
  obtain ⟨n, hn, g, hg, hfinish⟩ := Loop.run_eq_some_iff.1 hr
  constructor
  · intro hend
    -- A rejection settles the run, so it was neither accepted nor stopped by the limit.
    have hrejected : ∀ e reason, g.turn ≠ .settled e (.rejected reason) := by
      intro e reason ht
      obtain rfl := Configuration.eq_finish_of_settled ht hfinish
      rcases hend with haccepted | hstops
      · cases haccepted
      · exact not_settled_of_stopsAtLimit hstops hg ht
    have hbacktracks : r.backtracks = 0 := by
      rcases Configuration.of_step_eq_finish hfinish with ⟨e, o, -, rfl⟩ | ⟨e, i, o, -, -, rfl⟩ <;>
        rfl
    exact ⟨Search.search_of_not_rejected hn hg hfinish hrejected, hbacktracks⟩
  · intro reason hsettles hreason
    obtain ⟨e, o, ht⟩ := exists_settled_of_settles hsettles hg hfinish
    obtain rfl := Configuration.eq_finish_of_settled ht hfinish
    obtain rfl : o = .rejected reason := hreason
    exact ⟨_, Search.search_of_rejected hn hg ht, rfl, rfl, rfl, rfl, rfl⟩

/-- A direct run on the empty text accepts, and so does a search. With the limit of three steps both
are stopped on `aa`. Without it, the direct run guesses the middle too late, and a search that
remembers nothing can do no better. -/
theorem palindrome_search_extends :
    (∃ r, Palindrome.machine.run {} (Tape.ofString "") 2 = some r ∧ r.outcome = .accepted ∧
      Palindrome.machine.search {} (Tape.ofString "") 2 = some r) ∧
    (∃ r, Palindrome.machine.run ⟨some 3, none⟩ (Tape.ofString "aa") 4 = some r ∧
      Palindrome.machine.StopsAtLimit ⟨some 3, none⟩ (Tape.ofString "aa") ∧
      Palindrome.machine.search ⟨some 3, none⟩ (Tape.ofString "aa") 4 = some r) ∧
    ∃ r r', Palindrome.machine.run {} (Tape.ofString "aa") 6 = some r ∧
      Palindrome.machine.search ⟨none, some 0⟩ (Tape.ofString "aa") 6 = some r' ∧
      r.outcome = .rejected "2 unmatched symbol(s) on the stack in state 'match'" ∧
      r'.path = r.path := by
  have hstops : Palindrome.machine.StopsAtLimit ⟨some 3, none⟩ (Tape.ofString "aa") :=
    ⟨3, _, _, _, rfl, rfl, nofun⟩
  have hsettles : Palindrome.machine.Settles {} (Tape.ofString "aa") := ⟨5, _, _, _, rfl, rfl⟩
  refine ⟨⟨_, rfl, rfl, ?_⟩, ⟨_, rfl, hstops, ?_⟩, ?_⟩
  · exact ((search_extends_run Palindrome.machine none none none _ rfl).1 (.inl rfl)).1
  · exact ((search_extends_run Palindrome.machine (some 3) none none _ rfl).1 (.inr hstops)).1
  · have hrun : Palindrome.machine.run {} (Tape.ofString "aa") 6 = some _ := rfl
    obtain ⟨r', hr', -, hpath, -⟩ := (search_extends_run Palindrome.machine none none none _ hrun).2
      "2 unmatched symbol(s) on the stack in state 'match'" hsettles rfl
    exact ⟨_, r', hrun, hr', rfl, hpath⟩

end StateMachine
