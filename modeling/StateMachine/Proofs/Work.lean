/-
# The work of a run

Three things can be counted while a run goes on: the transitions it fires, the states it enters,
and the choices it takes off its trail. The first number, which the report tells as its steps,
bounds the other two (`work_bounded`): the run enters its initial state and then one state with each
transition, and a choice that is taken off was noted with a transition of its own. So a limit on
steps limits the whole work, and a run that has one ends, whatever actions and handlers do.

A turn may take many choices off and puts at most one there, and what is taken off is missing from
the trail afterwards (`Search.pops_add_length`). Hence it is the number of choices popped plus the
length of the trail that grows with the steps, and not each of them (`Search.popsWithin_le`).
-/

import StateMachine.Proofs.Chronicle
import StateMachine.Proofs.StepLimit

namespace StateMachine

universe u v w

variable {C : Type u} {K : Type v} {M : Type w}

/-! ## States that are entered -/

/-- The event tells of the entry into a state. -/
def Event.isEntered : Event → Bool
  | entered _ => true
  | _ => false

/-- Besides the initial state, as many states were entered as transitions were fired. -/
theorem Chronicle.countP_isEntered {start : String} {es : List Event} {p : Path}
    (h : Chronicle start es p) : es.countP Event.isEntered = es.countP Event.isFired + 1 := by
  have hmove : ∀ v : Move, v.events.countP Event.isEntered = v.events.countP Event.isFired :=
    fun _ => rfl
  induction h with
  | begin => rfl
  | move v _ _ ih =>
    rw [List.countP_append, List.countP_append, ih, hmove v]
    omega
  | back n v _ _ _ ih =>
    have hback : ∀ q : Event → Bool, q (.returned v.source) = false →
        (Event.returned v.source :: v.events).countP q = v.events.countP q :=
      fun q hq => List.countP_cons_of_neg (by simp [hq])
    rw [List.countP_append, List.countP_append, hback _ rfl, hback _ rfl, ih, hmove v]
    omega

/-- No state is entered at the end of a run. -/
theorem Ending.countP_isEntered {limits : Limits} {p q : Path} {o : Outcome} {es : List Event}
    (h : Ending limits p o q es) : es.countP Event.isEntered = 0 := by
  cases h <;> rfl

/-- **One state more is entered than transitions are fired.** -/
theorem Report.Tells.countP_isEntered {start : String} {limits : Limits} {r : Report C}
    (h : r.Tells start limits) : r.events.countP Event.isEntered = r.steps + 1 := by
  obtain ⟨es, p, ending, hevents, hchronicle, hending⟩ := h.path
  have hfired := h.steps
  rw [hevents, List.countP_append, hending.countP_isFired] at hfired
  rw [hevents, List.countP_append, hending.countP_isEntered, hchronicle.countP_isEntered]
  omega

/-- What a direct run reports tells how it went. -/
theorem Configuration.tells_of_run [Input C] [BEq K] {m : Machine C K} {limits : Limits} {c : C}
    {turns : Nat} {r : Report C} (h : m.run limits c turns = some r) :
    r.Tells (m.stateName m.initial) limits := by
  obtain ⟨n, -, g, hg, hfinish⟩ := Loop.run_eq_some_iff.1 h
  obtain ⟨htold, -⟩ := told_of_after hg
  rcases of_step_eq_finish hfinish with ⟨e, o, ht, rfl⟩ | ⟨e, i, o, ht, -, rfl⟩
  · exact (htold.of_settled ht).tells_finish o
  · obtain ⟨rfl, -⟩ := of_turn_eq_choice ht
    exact htold.tells_finish o

/-! ## Choices that are taken off the trail -/

namespace Search

variable [Rewind C M] [BEq K] {m : Machine C K}

/-- How many of the given choices a search takes off its trail when it returns after a rejection. -/
def popsAmong : List (Choice (Fin m.count) M K) → Configuration m → Nat
  | [], _ => 0
  | c :: rest, g =>
    match (restore g c).select (c.taken + 1) with
    | none => popsAmong rest (restore g c) + 1
    | some _ => 1

/-- What is taken off is missing afterwards; without another way, everything is taken off. -/
theorem of_nextAmong (reason : String) (trail : Trail (Fin m.count) M K) (backtracks : Nat)
    (l : List (Choice (Fin m.count) M K)) (g : Configuration m) :
    (∀ r, nextAmong reason trail backtracks l g = .ends r → popsAmong l g = l.length) ∧
    ∀ f trail' b, nextAmong reason trail backtracks l g = .fires f trail' b →
      popsAmong l g + trail'.length = l.length := by
  induction l generalizing g with
  | nil =>
    constructor
    · exact fun _ _ => rfl
    · intro f trail' b hf
      cases hf
  | cons c rest ih =>
    rw [nextAmong, popsAmong]
    cases (restore g c).select (c.taken + 1) with
    | none =>
      obtain ⟨hends, hfires⟩ := ih (restore g c)
      refine ⟨fun r hr => congrArg (· + 1) (hends r hr), fun f trail' b hf => ?_⟩
      have hrest := hfires f trail' b hf
      rw [Nat.add_right_comm, hrest, List.length_cons]
    | some i =>
      constructor
      · intro r hr
        cases hr
      · intro f trail' b hf
        cases hf
        exact Nat.add_comm 1 _

variable [Input C]

/-- How many choices a turn takes off the trail. -/
def pops (s : Search m M) : Nat :=
  match s.config.turn with
  | .settled g (.rejected _) => popsAmong s.trail.choices g
  | _ => 0

/-- How many choices a search takes off its trail within the given number of turns. -/
def popsWithin (limits : Limits) : Nat → Search m M → Nat
  | 0, _ => 0
  | turns + 1, s =>
    pops s +
      match step limits s with
      | .continue t => popsWithin limits turns t
      | .finish _ => 0

/-- **What a turn takes off the trail is missing afterwards,** and no turn takes off more than there
is. -/
theorem pops_add_length {s : Search m M} :
    pops s ≤ s.trail.length ∧
      ∀ f trail b, s.next = .fires f trail b → pops s + trail.length = s.trail.length := by
  unfold pops next
  cases s.config.turn with
  | choice g i =>
    refine ⟨Nat.zero_le _, fun f trail b hf => ?_⟩
    cases hf
    exact Nat.zero_add _
  | settled g o =>
    cases o with
    | accepted => exact ⟨Nat.zero_le _, nofun⟩
    | rejected reason =>
      obtain ⟨hends, hfires⟩ := of_nextAmong reason s.trail s.backtracks s.trail.choices g
      refine ⟨?_, hfires⟩
      cases hn : nextAmong reason s.trail s.backtracks s.trail.choices g with
      | ends r => exact Nat.le_of_eq (hends r hn)
      | fires f trail b =>
        rw [Trail.length, ← hfires f trail b hn]
        exact Nat.le_add_right _ _

/-- A turn that goes on has fired one transition, and has put at most its choice on the trail. -/
theorem pops_of_step {limits : Limits} {s t : Search m M} (h : step limits s = .continue t) :
    t.config.steps = s.config.steps + 1 ∧ pops s + t.trail.length ≤ s.trail.length + 1 := by
  obtain ⟨f, trail, b, hf, rfl⟩ := exists_fires_of_step h
  have hsteps := steps_of_next.2 f trail b hf
  have hpops := pops_add_length.2 f trail b hf
  have hpush : (trail.push f.choice).length ≤ trail.length + 1 :=
    (trail.choices_push_prefix f.choice).length_le
  refine ⟨congrArg (· + 1) hsteps, ?_⟩
  change pops s + (trail.push f.choice).length ≤ _
  omega

/-- A turn that ends the search has fired none. -/
theorem steps_of_step_finish {limits : Limits} {s : Search m M} {r : Report C}
    (h : step limits s = .finish r) : r.steps = s.config.steps := by
  rcases of_step_eq_finish h with hn | ⟨f, trail, b, o, hf, -, rfl⟩
  · exact steps_of_next.1 r hn
  · exact steps_of_next.2 f trail b hf

/-- **Steps pay for what is taken off the trail:** the transitions still to be fired and the choices
that are there already suffice for the rest of the search. -/
theorem popsWithin_le {limits : Limits} {turns : Nat} {s : Search m M} {r : Report C}
    (h : Loop.run (step limits) turns s = some r) :
    popsWithin limits turns s + s.config.steps ≤ r.steps + s.trail.length := by
  induction turns generalizing s with
  | zero => cases h
  | succ turns ih =>
    rw [Loop.run] at h
    rw [popsWithin]
    cases hs : step limits s with
    | «continue» t =>
      rw [hs] at h
      obtain ⟨hsteps, hpops⟩ := pops_of_step hs
      have hrest := ih h
      simp only
      omega
    | finish r' =>
      rw [hs] at h
      obtain rfl := Option.some.inj h
      have hsteps := steps_of_step_finish hs
      have hpops : pops s ≤ s.trail.length := pops_add_length.1
      simp only
      omega

end Search

/-! ## The bound -/

/-- **Steps bound the work of a run, and a limit on steps makes it end.** Whatever a machine does,
on every context and with every limits:

* A direct run that ends has entered one state more than it has fired transitions.
* So has a search that ends, the states included that it has left again by returning, and in all its
  turns it has taken no more choices off its trail than it has fired transitions.
* With a limit of `n` steps, both end, within `n + 1` turns, and have fired at most `n` transitions.
-/
theorem work_bounded [Input C] [Rewind C M] [BEq K] (m : Machine C K) (limits : Limits) (c : C) :
    (∀ turns r, m.run limits c turns = some r →
      r.events.countP Event.isEntered = r.steps + 1) ∧
    (∀ turns r, m.search (M := M) limits c turns = some r →
      r.events.countP Event.isEntered = r.steps + 1 ∧
      Search.popsWithin limits turns (Search.start m M limits c) ≤ r.steps) ∧
    ∀ n, limits.steps = some n →
      (∃ r, m.run limits c (n + 1) = some r ∧ r.steps ≤ n) ∧
      ∃ r, m.search (M := M) limits c (n + 1) = some r ∧ r.steps ≤ n := by
  refine ⟨fun turns r hr => (Configuration.tells_of_run hr).countP_isEntered,
    fun turns r hr => ⟨?_, Search.popsWithin_le hr⟩, fun n hn => ?_⟩
  · obtain ⟨k, -, s, hs, hfinish⟩ := Loop.run_eq_some_iff.1 hr
    exact (Search.tells_of_finish hs hfinish).1.countP_isEntered
  · obtain ⟨steps, trail⟩ := limits
    obtain rfl : steps = some n := hn
    constructor
    · refine (Configuration.metered m trail).exists_run_limited rfl ?_ n
      rintro n g r ⟨f, hf, backtracks, rfl⟩
      have hsteps := Configuration.steps_of_turn_eq_choice hf
      exact hsteps
    · refine (Search.metered m M trail).exists_run_limited (s := Search.start m M _ c) rfl ?_ n
      rintro n s r ⟨f, trail', b, hf, backtracks, rfl⟩
      have hsteps := Search.steps_of_next.2 f trail' b hf
      exact hsteps

/-- On `ab` a search fires seven transitions and takes as many choices off its trail, all of them
there are. A limit of four steps stops it before it has taken off any, and stops a direct run. -/
theorem palindrome_work :
    (∃ r, Palindrome.machine.search (M := Nat) {} (Tape.ofString "ab") 8 = some r ∧ r.steps = 7 ∧
      r.events.countP Event.isEntered = 8 ∧
      Search.popsWithin {} 8 (Search.start Palindrome.machine Nat {} (Tape.ofString "ab")) = 7 ∧
      7 ≤ r.steps) ∧
    (∃ r, Palindrome.machine.run ⟨some 4, none⟩ (Tape.ofString "ab") 5 = some r ∧
      r.events.countP Event.isEntered = r.steps + 1 ∧ r.steps ≤ 4) ∧
    ∃ r, Palindrome.machine.search (M := Nat) ⟨some 4, none⟩ (Tape.ofString "ab") 5 = some r ∧
      r.steps ≤ 4 := by
  have hfree := work_bounded (M := Nat) Palindrome.machine {} (Tape.ofString "ab")
  have hlimited := work_bounded (M := Nat) Palindrome.machine ⟨some 4, none⟩ (Tape.ofString "ab")
  have hsearch : ∃ r, Palindrome.machine.search (M := Nat) {} (Tape.ofString "ab") 8 = some r ∧
      r.steps = 7 := ⟨_, rfl, rfl⟩
  have hpops : Search.popsWithin {} 8
      (Search.start Palindrome.machine Nat {} (Tape.ofString "ab")) = 7 := rfl
  obtain ⟨r, hr, hsteps⟩ := hsearch
  obtain ⟨hentered, hbound⟩ := hfree.2.1 8 r hr
  rw [hsteps] at hentered
  rw [hpops] at hbound
  obtain ⟨⟨r', hr', hsteps'⟩, hstopped⟩ := hlimited.2.2 4 rfl
  have hentered' := hlimited.1 5 r' hr'
  exact ⟨⟨r, hr, hsteps, hentered, hpops, hbound⟩, ⟨r', hr', hentered', hsteps'⟩, hstopped⟩

end StateMachine
