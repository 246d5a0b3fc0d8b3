/-
# A limit on the trail cuts a search short

Two searches that differ in how many choices they may remember do the same as long as both go on:
they are in the same configuration, and the smaller trail is the latest part of the larger one
(`Search.Shadows`). The search never looks at its trail but to take up the latest choice, so nothing
but an empty trail can tell the two apart. Then the search with the smaller limit is exhausted, and
the other one may go on (`Search.Shadows.step`).

So whatever the search with the smaller limit ends with, unless it is exhausted, is what the other
one ends with (`trailLimit_cuts_short`). No law is assumed of rewinding or of the equality of
symbols: both searches do the same, right or wrong.
-/

import StateMachine.Proofs.StepLimit

namespace StateMachine

universe u v w

variable {C : Type u} {K : Type v} {M : Type w}

/-- A limit is within another one. A limit that is absent is infinite. -/
def Limits.Within : Option Nat → Option Nat → Prop
  | _, none => True
  | some a, some b => a ≤ b
  | none, some _ => False

/-- Every limit is within none at all. -/
theorem Limits.within_none (L : Option Nat) : Limits.Within L none := by
  cases L <;> trivial

/-- The smaller trail stays the latest part of the larger one when both note a choice. -/
theorem Trail.push_prefix_push {σ : Type u} {t t' : Trail σ M K} (h : t.choices <+: t'.choices)
    (hlimit : Limits.Within t.limit t'.limit) (c : Choice σ M K) :
    (t.push c).choices <+: (t'.push c).choices := by
  have hcons : c :: t.choices <+: c :: t'.choices := (List.prefix_cons_inj c).2 h
  rw [choices_push, choices_push]
  cases hb : t'.limit with
  | none =>
    cases t.limit with
    | none => exact hcons
    | some a => exact (List.take_prefix a _).trans hcons
  | some b =>
    cases ha : t.limit with
    | none =>
      rw [ha, hb] at hlimit
      exact hlimit.elim
    | some a =>
      rw [ha, hb] at hlimit
      have hab : a ≤ b := hlimit
      -- Both are first parts of the longer list, so their lengths decide.
      have hlength : (c :: t.choices).length ≤ (c :: t'.choices).length := hcons.length_le
      refine List.prefix_of_prefix_length_le ((List.take_prefix a _).trans hcons)
        (List.take_prefix b _) ?_
      rw [List.length_take, List.length_take]
      omega

/-- A report of a search that has ended by itself or for its limit on steps. -/
def Report.Concluded (steps : Option Nat) (r : Report C) : Prop :=
  r.outcome = .accepted ∨
    ∃ n, steps = some n ∧ r.outcome = .rejected s!"step limit of {n} transitions exceeded"

/-- A report of a search that had no choice left. -/
def Report.Exhausted (r : Report C) : Prop :=
  ∃ reason : String, r.outcome = .rejected s!"backtracking exhausted: {reason}"

/-- The two kinds of rejections are worded differently. -/
theorem not_concluded_of_exhausted {r : Report C} (h : r.Exhausted) (steps : Option Nat) :
    ¬ r.Concluded steps := by
  obtain ⟨reason, hr⟩ := h
  rintro (ho | ⟨n, -, ho⟩)
  · rw [hr] at ho
    cases ho
  · rw [hr] at ho
    have hfirst := congrArg (fun s : String => s.toList.head?) (Outcome.rejected.inj ho)
    simp [toString, String.toList_append] at hfirst

namespace Search

variable [Rewind C M] {m : Machine C K}

/-- The two searches are in the same configuration, and the choices on the first one's trail are the
latest of those on the second one's. -/
structure Shadows (s s' : Search m M) : Prop where
  config : s.config = s'.config
  backtracks : s.backtracks = s'.backtracks
  limit : Limits.Within s.trail.limit s'.trail.limit
  choices : s.trail.choices <+: s'.trail.choices

/-- Before the first turn, the search with the smaller limit shadows the other one. -/
theorem shadows_start (m : Machine C K) (M : Type w) [Rewind C M] (steps : Option Nat)
    {L L' : Option Nat} (hL : Limits.Within L L') (c : C) :
    Shadows (start m M ⟨steps, L⟩ c) (start m M ⟨steps, L'⟩ c) :=
  ⟨rfl, rfl, hL, List.nil_prefix⟩

variable [BEq K]

/-- **Going back past the same choices comes to the same firing**, unless there are no more of them
on the smaller trail. -/
theorem nextAmong_of_prefix (reason : String) (t t' : Trail (Fin m.count) M K) (b : Nat)
    {l l' : List (Choice (Fin m.count) M K)} (h : l <+: l') (g : Configuration m) :
    (∃ g' : Configuration m, nextAmong reason t b l g = .ends (exhausted g' reason b)) ∨
      ∃ f rest rest', nextAmong reason t b l g = .fires f { t with choices := rest } (b + 1) ∧
        nextAmong reason t' b l' g = .fires f { t' with choices := rest' } (b + 1) ∧
        rest <+: rest' := by
  induction l generalizing l' g with
  | nil => exact .inl ⟨g, rfl⟩
  | cons c rest ih =>
    obtain ⟨rest', rfl, hrest⟩ := List.cons_prefix_iff.1 h
    rw [nextAmong, nextAmong]
    cases (restore g c).select (c.taken + 1) with
    | none => exact ih hrest (restore g c)
    | some i => exact .inr ⟨_, rest, rest', rfl, rfl, hrest⟩

variable [Input C] {s s' : Search m M}

/-- What the turns of two such searches come to: the first one is exhausted, or both accept, or both
come to the same firing. -/
theorem Shadows.next (h : Shadows s s') :
    (∃ (g : Configuration m) (reason : String), s.next = .ends (exhausted g reason s.backtracks)) ∨
    (∃ r : Report C, r.outcome = .accepted ∧ s.next = .ends r ∧ s'.next = .ends r) ∨
    ∃ f t t' b, s.next = .fires f t b ∧ s'.next = .fires f t' b ∧
      Limits.Within t.limit t'.limit ∧ t.choices <+: t'.choices := by
  rw [Search.next, Search.next, ← h.config, ← h.backtracks]
  cases s.config.turn with
  | choice g i => exact .inr (.inr ⟨⟨g, i⟩, _, _, _, rfl, rfl, h.limit, h.choices⟩)
  | settled g o =>
    cases o with
    | accepted => exact .inr (.inl ⟨_, rfl, rfl, rfl⟩)
    | rejected reason =>
      rcases nextAmong_of_prefix reason s.trail s'.trail s.backtracks h.choices g with
        ⟨g', hg⟩ | ⟨f, rest, rest', hf, hf', hrest⟩
      · exact .inl ⟨g', reason, hg⟩
      · exact .inr (.inr ⟨f, _, _, _, hf, hf', h.limit, hrest⟩)

/-- **A turn of two such searches:** the first one is exhausted, or both end with the same report,
or both go on in the same way. -/
theorem Shadows.step (h : Shadows s s') (steps L L' : Option Nat) :
    (∃ r : Report C, r.Exhausted ∧ Search.step ⟨steps, L⟩ s = .finish r) ∨
    (∃ r : Report C, r.Concluded steps ∧ Search.step ⟨steps, L⟩ s = .finish r ∧
      Search.step ⟨steps, L'⟩ s' = .finish r) ∨
    ∃ u u', Search.step ⟨steps, L⟩ s = .continue u ∧ Search.step ⟨steps, L'⟩ s' = .continue u' ∧
      Shadows u u' := by
  rw [step_eq_carryOut, step_eq_carryOut]
  rcases h.next with ⟨g, reason, hn⟩ | ⟨r, hr, hn, hn'⟩ | ⟨f, t, t', b, hn, hn', hlimit, hchoices⟩
  · rw [hn]
    exact .inl ⟨_, ⟨reason, rfl⟩, rfl⟩
  · rw [hn, hn']
    exact .inr (.inl ⟨r, .inl hr, rfl, rfl⟩)
  · rw [hn, hn']
    -- The limit on steps is the same, and both have fired as many transitions.
    have hsame : (⟨steps, L'⟩ : Limits).exceeded f.config.steps =
        (⟨steps, L⟩ : Limits).exceeded f.config.steps := rfl
    simp only [Next.carryOut, fire, hsame]
    cases he : (⟨steps, L⟩ : Limits).exceeded f.config.steps with
    | some o =>
      obtain ⟨n, hn, -, ho⟩ := Limits.exceeded_eq_some_iff.1 he
      exact .inr (.inl ⟨_, .inr ⟨n, hn, ho⟩, rfl, rfl⟩)
    | none =>
      refine .inr (.inr ⟨_, _, rfl, rfl, rfl, rfl, ?_, ?_⟩)
      · rw [Trail.limit_push, Trail.limit_push]
        exact hlimit
      · exact Trail.push_prefix_push hchoices hlimit _

variable {steps L L' : Option Nat} (hL : Limits.Within L L') {c : C} {n : Nat}

include hL

/-- At the head of every turn to which the search with the smaller limit gets, the other one is in
the same configuration. -/
theorem shadows_of_after (h : Loop.after (step ⟨steps, L⟩) n (start m M ⟨steps, L⟩ c) = some s) :
    ∃ s', Loop.after (step ⟨steps, L'⟩) n (start m M ⟨steps, L'⟩ c) = some s' ∧
      Shadows s s' := by
  refine Loop.after_simulation (fun hR hs => ?_) (shadows_start m M steps hL c) h
  rcases hR.step steps L L' with
    ⟨r, -, hr⟩ | ⟨r, -, hr, -⟩ | ⟨u, u', hu, hu', hshadows⟩
  · rw [hr] at hs
    cases hs
  · rw [hr] at hs
    cases hs
  · rw [hu] at hs
    cases hs
    exact ⟨u', hu', hshadows⟩

/-- **The search with the smaller limit is exhausted, or ends as the other one does.** -/
theorem exhausted_or_concluded {turns : Nat} {r : Report C}
    (hr : m.search (M := M) ⟨steps, L⟩ c turns = some r) :
    r.Exhausted ∨ r.Concluded steps ∧ m.search (M := M) ⟨steps, L'⟩ c turns = some r := by
  obtain ⟨n, hn, s, hs, hfinish⟩ := Loop.run_eq_some_iff.1 hr
  obtain ⟨s', hs', hshadows⟩ := shadows_of_after hL hs
  rcases hshadows.step steps L L' with
    ⟨q, hq, hstep⟩ | ⟨q, hq, hstep, hstep'⟩ | ⟨u, u', hu, -, -⟩
  · rw [hstep] at hfinish
    cases hfinish
    exact .inl hq
  · rw [hstep] at hfinish
    cases hfinish
    exact .inr ⟨hq, Loop.run_eq_some_iff.2 ⟨n, hn, s', hs', hstep'⟩⟩
  · rw [hu] at hfinish
    cases hfinish

/-- The search with the smaller limit comes to the same firings, in the same turns. -/
theorem firesIn_of_within {f : Firing m} (h : FiresIn M ⟨steps, L⟩ c n f) :
    FiresIn M ⟨steps, L'⟩ c n f := by
  obtain ⟨s, trail, b, hs, hf⟩ := h
  obtain ⟨s', hs', hshadows⟩ := shadows_of_after hL hs
  rcases hshadows.next with ⟨g, reason, hn⟩ | ⟨r, -, hn, -⟩ | ⟨f', t, t', b', hn, hn', -, -⟩
  · rw [hn] at hf
    cases hf
  · rw [hn] at hf
    cases hf
  · rw [hn] at hf
    cases hf
    exact ⟨s', t', _, hs', hn'⟩

/-- The search with the smaller limit ends if the other one does, and not later. -/
theorem exists_search_of_within {turns : Nat} {r' : Report C}
    (hr' : m.search (M := M) ⟨steps, L'⟩ c turns = some r') :
    ∃ r, m.search (M := M) ⟨steps, L⟩ c turns = some r := by
  rcases Loop.exists_run_or_after (step ⟨steps, L⟩) turns (start m M ⟨steps, L⟩ c) with
    hr | ⟨s, hs⟩
  · exact hr
  · obtain ⟨s', hs', -⟩ := shadows_of_after hL hs
    have hnone := Loop.run_eq_none_of_after hs'
    rw [Machine.search, hnone] at hr'
    cases hr'

end Search

section Unlimited

variable [Input C] [Rewind C M] [BEq K] {m : Machine C K} {c : C} {turns : Nat} {r : Report C}

/-- A search that accepts within a limit on steps accepts without it, too. -/
theorem search_of_accepted {steps trail : Option Nat}
    (hr : m.search (M := M) ⟨steps, trail⟩ c turns = some r) (ho : r.outcome = .accepted) :
    m.search (M := M) ⟨none, trail⟩ c turns = some r := by
  cases steps with
  | none => exact hr
  | some n =>
    have hrefused : ∀ (f : Firing m), ¬ f.Refused n r := by
      rintro f ⟨b, rfl⟩
      cases ho
    refine (Search.metered m M trail).run_unlimited rfl hr ?_
    rintro s ⟨f, trail', b, -, hf⟩
    exact hrefused f hf

end Unlimited

/-- **A limit on the trail only cuts a search short.** Of two searches with the same limit on steps,
let the limit of the one on its trail be within that of the other.

* At the head of every turn to which the one gets, the other is in the same configuration: what has
  been fired so far, in which order and with which context, is the same.
* Whatever transition the one comes to in a turn, the other comes to in that turn.
* The one is exhausted, or it accepts or is stopped by its limit on steps; and then the other ends
  with the same report.
* If the other one ends, so does the one.
* If the one accepts, so does the search without any limit, with the same report. -/
theorem trailLimit_cuts_short [Input C] [Rewind C M] [BEq K] (m : Machine C K)
    (steps : Option Nat) {L L' : Option Nat} (hL : Limits.Within L L') (c : C) :
    (∀ n s, Loop.after (Search.step ⟨steps, L⟩) n (Search.start m M ⟨steps, L⟩ c) = some s →
      ∃ s', Loop.after (Search.step ⟨steps, L'⟩) n (Search.start m M ⟨steps, L'⟩ c) = some s' ∧
        s.config = s'.config ∧ s.backtracks = s'.backtracks) ∧
    (∀ n (f : Firing m), Search.FiresIn M ⟨steps, L⟩ c n f → Search.FiresIn M ⟨steps, L'⟩ c n f) ∧
    (∀ turns r, m.search (M := M) ⟨steps, L⟩ c turns = some r →
      (r.Exhausted ∨ r.Concluded steps) ∧
        (r.Concluded steps → m.search (M := M) ⟨steps, L'⟩ c turns = some r)) ∧
    (∀ turns r', m.search (M := M) ⟨steps, L'⟩ c turns = some r' →
      ∃ r, m.search (M := M) ⟨steps, L⟩ c turns = some r) ∧
    ∀ turns r, m.search (M := M) ⟨steps, L⟩ c turns = some r → r.outcome = .accepted →
      m.search (M := M) {} c turns = some r := by
  refine ⟨?_, ?_, ?_, ?_, ?_⟩
  · intro n s hs
    obtain ⟨s', hs', hshadows⟩ := Search.shadows_of_after hL hs
    exact ⟨s', hs', hshadows.config, hshadows.backtracks⟩
  · intro n f hf
    exact Search.firesIn_of_within hL hf
  · intro turns r hr
    rcases Search.exhausted_or_concluded hL hr with hexhausted | ⟨hconcluded, hr'⟩
    · refine ⟨.inl hexhausted, fun hconcluded => ?_⟩
      exact absurd hconcluded (not_concluded_of_exhausted hexhausted steps)
    · exact ⟨.inr hconcluded, fun _ => hr'⟩
  · intro turns r' hr'
    exact Search.exists_search_of_within hL hr'
  · intro turns r hr ho
    rcases Search.exhausted_or_concluded (Limits.within_none L) hr with hexhausted | ⟨-, hr'⟩
    · exact absurd (.inl ho) (not_concluded_of_exhausted hexhausted steps)
    · exact search_of_accepted hr' ho

/-- On `aa` a search needs to remember three choices. With two it is exhausted, with three it finds
what a search without limits finds. -/
theorem palindrome_trailLimit :
    (∃ r, Palindrome.machine.search ⟨none, some 2⟩ (Tape.ofString "aa") 9 = some r ∧
      r.Exhausted) ∧
    ∃ r, Palindrome.machine.search ⟨none, some 3⟩ (Tape.ofString "aa") 9 = some r ∧
      r.outcome = .accepted ∧ r.backtracks = 1 ∧
      Palindrome.machine.search ⟨none, some 4⟩ (Tape.ofString "aa") 9 = some r ∧
      Palindrome.machine.search {} (Tape.ofString "aa") 9 = some r := by
  have hcut := trailLimit_cuts_short Palindrome.machine none
    (show Limits.Within (some 3) (some 4) from Nat.le_succ 3) (Tape.ofString "aa")
  refine ⟨⟨_, rfl, _, rfl⟩, _, rfl, rfl, rfl, ?_, ?_⟩
  · exact (hcut.2.2.1 9 _ rfl).2 (.inl rfl)
  · exact hcut.2.2.2.2 9 _ rfl rfl

end StateMachine
