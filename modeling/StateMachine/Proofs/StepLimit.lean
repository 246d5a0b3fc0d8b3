/-
# A limit on steps cuts a run short

`stepLimit_is_prefix` says of direct runs and of searches alike what a limit of `n` steps does. A run
that ends by itself after at most `n` transitions is not changed. Any other run, be it finite or not,
is stopped where its transition number `n + 1` is about to be fired, and tells that the limit was
reached. In a search this may be after it has returned to a choice: the context has been rewound
then and the path is cut, since this belongs to the firing (`Search.returned`).

Both are loops that pay for their turns (`Configuration.metered`, `Search.metered`): a turn that
goes on fires one transition, and just before that the limit is asked.
-/

import StateMachine.Proofs.Meter
import StateMachine.Proofs.Unwind

namespace StateMachine

universe u v w

variable {C : Type u} {K : Type v} {M : Type w} {m : Machine C K}

/-- The report of a run that the limit of `n` steps has stopped in a configuration, when `n`
transitions had been fired. -/
structure Report.StoppedAt (r : Report C) (n : Nat) (g : Configuration m) : Prop where
  fired : g.steps = n
  outcome : r.outcome = .rejected s!"step limit of {n} transitions exceeded"
  steps : r.steps = n
  context : r.context = g.context
  path : r.path = g.path

/-- The run is refused the firing: the limit of `n` steps ends it there. -/
def Firing.Refused (f : Firing m) (n : Nat) (r : Report C) : Prop :=
  ∃ backtracks,
    r = f.config.finish (.rejected s!"step limit of {n} transitions exceeded") backtracks

/-- A run that is refused a firing when it has fired `n` transitions has been stopped there. -/
theorem Firing.Refused.stoppedAt {f : Firing m} {n : Nat} {r : Report C} (h : f.Refused n r)
    (hsteps : f.config.steps = n) : r.StoppedAt n f.config := by
  obtain ⟨backtracks, rfl⟩ := h
  exact ⟨hsteps, rfl, hsteps, rfl, rfl⟩

namespace Limits

variable {n fired : Nat} (trail : Option Nat)

/-- As long as fewer transitions have been fired than the limit says, it is not exceeded. -/
theorem exceeded_of_lt (h : fired < n) : (⟨some n, trail⟩ : Limits).exceeded fired = none :=
  exceeded_eq_none_iff.2 fun _ hn => Option.some.inj hn ▸ h

/-- When as many transitions have been fired as the limit says, it is exceeded, and the outcome
names it. -/
theorem exceeded_of_le (h : n ≤ fired) : (⟨some n, trail⟩ : Limits).exceeded fired =
    some (.rejected s!"step limit of {n} transitions exceeded") :=
  exceeded_eq_some_iff.2 ⟨n, rfl, h, rfl⟩

end Limits

namespace Configuration

variable [Input C] [BEq K] {g e : Configuration m}

/-- In turn `j`, counted from zero, the direct run comes to fire `f`. -/
def FiresIn (limits : Limits) (c : C) (j : Nat) (f : Firing m) : Prop :=
  ∃ g, Loop.after (step limits) j (start m c) = some g ∧ g.turn = .choice f.config f.index

/-- A turn that comes to a transition has fired none yet. -/
theorem steps_of_turn_eq_choice {i : Fin e.transitions.length} (h : g.turn = .choice e i) :
    e.steps = g.steps := by
  rw [(of_turn_eq_choice h).1]
  rfl

/-- A turn that settles the outcome fires none. -/
theorem steps_of_turn_eq_settled {o : Outcome} (h : g.turn = .settled e o) :
    e.steps = g.steps := by
  rcases of_turn_eq_settled h with rfl | rfl <;> rfl

/-- **A direct run pays for its turns.** -/
theorem metered (m : Machine C K) (trail : Option Nat) :
    Loop.Metered (fun limit => step (m := m) ⟨limit, trail⟩) steps Report.steps
      (fun n g r => ∃ f : Firing m, g.turn = .choice f.config f.index ∧ f.Refused n r) := by
  refine ⟨fun g => ?_⟩
  cases ht : g.turn with
  | settled e o =>
    have hsteps : e.steps = g.steps := steps_of_turn_eq_settled ht
    exact .inl ⟨e.finish o 0, hsteps, fun limit => step_of_settled ht⟩
  | choice e i =>
    have hsteps : e.steps = g.steps := steps_of_turn_eq_choice ht
    refine .inr ⟨e.fire i, congrArg (· + 1) hsteps, step_of_choice ht rfl, fun n => ?_⟩
    constructor
    · intro hlt
      rw [← hsteps] at hlt
      exact step_of_choice ht (Limits.exceeded_of_lt trail hlt)
    · intro hle
      rw [← hsteps] at hle
      have hstep := step_of_exceeded ht (Limits.exceeded_of_le trail hle)
      exact ⟨_, hstep, ⟨e, i⟩, rfl, 0, rfl⟩

end Configuration

namespace Search

variable [Rewind C M] [BEq K]

variable [Input C] {s : Search m M}

/-- What a turn comes to, before anything is fired, has cost what had been paid before: going back
past choices fires none. -/
theorem steps_of_next : (∀ r, s.next = .ends r → r.steps = s.config.steps) ∧
    ∀ f trail b, s.next = .fires f trail b → f.config.steps = s.config.steps := by
  refine ⟨fun r h => ?_, fun f trail b h => ?_⟩
  · rcases of_next_eq_ends h with ⟨g, ht, rfl⟩ | ⟨g, reason, ht, rfl, -⟩
    · have hsteps := Configuration.steps_of_turn_eq_settled ht
      exact hsteps
    · exact (steps_unwind g _).trans (Configuration.steps_of_turn_eq_settled ht)
  · rcases of_next_eq_fires h with ⟨ht, -⟩ | ⟨g, reason, past, c, rest, ht, -, -, -, hconfig, -⟩
    · exact Configuration.steps_of_turn_eq_choice ht
    · rw [hconfig]
      exact (steps_unwind g _).trans (Configuration.steps_of_turn_eq_settled ht)

/-- **A search pays for its turns,** also for the transitions that it takes back. -/
theorem metered (m : Machine C K) (M : Type w) [Rewind C M] (trail : Option Nat) :
    Loop.Metered (fun limit => step (m := m) (M := M) ⟨limit, trail⟩) (fun s => s.config.steps)
      Report.steps
      (fun n s r => ∃ f trail b, s.next = .fires f trail b ∧ f.Refused n r) := by
  refine ⟨fun s => ?_⟩
  -- The limit is asked only where a transition is about to be fired.
  cases hn : s.next with
  | ends r =>
    have hstep : ∀ limit, step ⟨limit, trail⟩ s = .finish r := by
      intro limit
      rw [step_eq_carryOut, hn]
      rfl
    exact .inl ⟨r, steps_of_next.1 r hn, hstep⟩
  | fires f trail' b =>
    have hsteps : f.config.steps = s.config.steps := steps_of_next.2 f trail' b hn
    refine .inr ⟨⟨f.config.fire f.index, trail'.push f.choice, b⟩, congrArg (· + 1) hsteps, ?_, ?_⟩
    · rw [step_eq_carryOut, hn]
      rfl
    · intro n
      simp only [step_eq_carryOut, hn, Next.carryOut, fire, hsteps]
      constructor
      · intro hlt
        rw [Limits.exceeded_of_lt trail hlt]
        rfl
      · intro hle
        rw [Limits.exceeded_of_le trail hle]
        exact ⟨_, rfl, f, trail', b, rfl, b, rfl⟩

end Search

/-- **A limit on steps yields a prefix of the unlimited run,** for direct runs and for searches.

* If the unlimited run ends with at most `n` transitions fired, those taken back included, the run
  with the limit `n` ends with the same report.
* Otherwise, also if the unlimited run goes on for ever, the run with the limit `n` ends, in turn
  `n + 1`. It is rejected for the limit, has fired `n` transitions, and its context and path are
  those with which the unlimited run comes to fire the next one. -/
theorem stepLimit_is_prefix [Input C] [Rewind C M] [BEq K] (m : Machine C K) (trail : Option Nat)
    (n : Nat) (c : C) :
    ((∀ turns r, m.run ⟨none, trail⟩ c turns = some r → r.steps ≤ n →
        m.run ⟨some n, trail⟩ c turns = some r) ∧
      ((¬ ∃ turns r, m.run ⟨none, trail⟩ c turns = some r ∧ r.steps ≤ n) →
        ∃ (f : Firing m) (r : Report C), Configuration.FiresIn ⟨none, trail⟩ c n f ∧
          m.run ⟨some n, trail⟩ c (n + 1) = some r ∧ r.StoppedAt n f.config)) ∧
    (∀ turns r, m.search (M := M) ⟨none, trail⟩ c turns = some r → r.steps ≤ n →
        m.search (M := M) ⟨some n, trail⟩ c turns = some r) ∧
      ((¬ ∃ turns r, m.search (M := M) ⟨none, trail⟩ c turns = some r ∧ r.steps ≤ n) →
        ∃ (f : Firing m) (r : Report C), Search.FiresIn M ⟨none, trail⟩ c n f ∧
          m.search (M := M) ⟨some n, trail⟩ c (n + 1) = some r ∧ r.StoppedAt n f.config) := by
  have hrun := Configuration.metered m trail
  have hsearch := Search.metered m M trail
  refine ⟨⟨?_, ?_⟩, ?_, ?_⟩
  · intro turns r hr hn
    exact hrun.run_limited rfl hr hn
  · intro hlong
    obtain ⟨g, r, hg, hspent, hr, f, hf, hrefused⟩ := hrun.exists_refused rfl hlong
    have hsteps : f.config.steps = n := (Configuration.steps_of_turn_eq_choice hf).trans hspent
    exact ⟨f, r, ⟨g, hg, hf⟩, hr, hrefused.stoppedAt hsteps⟩
  · intro turns r hr hn
    exact hsearch.run_limited (s := Search.start m M _ c) rfl hr hn
  · intro hlong
    obtain ⟨s, r, hs, hspent, hr, f, trail', b, hf, hrefused⟩ := hsearch.exists_refused rfl hlong
    have hsteps : f.config.steps = n := (Search.steps_of_next.2 f trail' b hf).trans hspent
    exact ⟨f, r, ⟨s, trail', b, hs, hf⟩, hr, hrefused.stoppedAt hsteps⟩

/-- On `aa` a direct run ends after five transitions, and so it does with this limit. A search takes
eight; the limit stops it when it has returned once and has cut its path. -/
theorem palindrome_stepLimit :
    (∃ r, Palindrome.machine.run ⟨none, none⟩ (Tape.ofString "aa") 6 = some r ∧ r.steps = 5 ∧
      Palindrome.machine.run ⟨some 5, none⟩ (Tape.ofString "aa") 6 = some r) ∧
    ∃ (f : Firing Palindrome.machine) (r : Report (Tape Char)),
      Search.FiresIn Nat ⟨none, none⟩ (Tape.ofString "aa") 5 f ∧
      Palindrome.machine.search ⟨some 5, none⟩ (Tape.ofString "aa") 6 = some r ∧
      r.StoppedAt 5 f.config ∧ r.backtracks = 1 ∧ r.path.length = 2 := by
  have hlimit := stepLimit_is_prefix Palindrome.machine none 5 (Tape.ofString "aa")
  refine ⟨⟨_, rfl, rfl, hlimit.1.1 6 _ rfl (Nat.le_refl 5)⟩, ?_⟩
  have hlong : ¬ ∃ turns r, Palindrome.machine.search ⟨none, none⟩ (Tape.ofString "aa") turns =
      some r ∧ r.steps ≤ 5 := by
    rintro ⟨turns, r, hr, hle⟩
    have height : Palindrome.machine.search ⟨none, none⟩ (Tape.ofString "aa") 9 = some _ := rfl
    obtain rfl := Loop.run_unique hr height
    exact absurd hle (by decide)
  obtain ⟨f, r, hf, hr, hstopped⟩ := hlimit.2.2 hlong
  obtain rfl := Option.some.inj hr
  exact ⟨f, _, hf, rfl, hstopped, rfl, rfl⟩

end StateMachine
