/-
# Loops that pay for their turns

`Loop.Metered` says of a loop with a limit that each turn which goes on spends one, and that the
limit is asked at one point only: when the loop is about to go on. Up to there the limited loop does
what the unlimited one does (`after_limited_iff`), so it has the same result if that one is content
with the limit (`run_limited`), and is refused at the head of turn `n` otherwise (`exists_refused`).

Where in a turn the limit is asked, and how much has been done by then, is a matter of each loop.
-/

import StateMachine.Proofs.Loop

namespace StateMachine
namespace Loop

universe u v

variable {σ : Type u} {ρ : Type v}

/-- A loop whose turns are paid for: `spent` is what has been paid at the head of a turn, `total`
what a result has cost, and `Refused n s r` says that from `s` the limit `n` leads to the result
`r`. -/
structure Metered (step : Option Nat → σ → Progress σ ρ) (spent : σ → Nat) (total : ρ → Nat)
    (Refused : Nat → σ → ρ → Prop) : Prop where
  /-- A turn has a result, whatever the limit, or goes on and pays if the limit allows it. -/
  turn : ∀ s, (∃ r, total r = spent s ∧ ∀ limit, step limit s = .finish r) ∨
    ∃ t, spent t = spent s + 1 ∧ step none s = .continue t ∧
      ∀ n, (spent s < n → step (some n) s = .continue t) ∧
        (n ≤ spent s → ∃ r, step (some n) s = .finish r ∧ Refused n s r)

namespace Metered

variable {step : Option Nat → σ → Progress σ ρ} {spent : σ → Nat} {total : ρ → Nat}
  {Refused : Nat → σ → ρ → Prop} (h : Metered step spent total Refused)

include h

/-- A turn of the unlimited loop goes on after paying, and so it does within a limit. -/
theorem of_step_none {s t : σ} (hs : step none s = .continue t) :
    spent t = spent s + 1 ∧ ∀ n, (spent s < n → step (some n) s = .continue t) ∧
      (n ≤ spent s → ∃ r, step (some n) s = .finish r ∧ Refused n s r) := by
  rcases h.turn s with ⟨r, -, hr⟩ | ⟨u, hu, hnone, hsome⟩
  · rw [hr none] at hs
    cases hs
  · rw [hnone] at hs
    cases hs
    exact ⟨hu, hsome⟩

/-- A result of the unlimited loop has cost what had been paid, and is the result within every
limit. -/
theorem of_step_none_finish {s : σ} {r : ρ} (hs : step none s = .finish r) :
    total r = spent s ∧ ∀ limit, step limit s = .finish r := by
  rcases h.turn s with ⟨r', hcost, hr⟩ | ⟨u, -, hnone, -⟩
  · rw [hr none] at hs
    cases hs
    exact ⟨hcost, hr⟩
  · rw [hnone] at hs
    cases hs

/-- A turn that goes on within a limit has asked it. -/
theorem of_step_some {n : Nat} {s t : σ} (hs : step (some n) s = .continue t) :
    spent s < n ∧ step none s = .continue t := by
  rcases h.turn s with ⟨r, -, hr⟩ | ⟨u, -, hnone, hsome⟩
  · rw [hr (some n)] at hs
    cases hs
  · rcases Nat.lt_or_ge (spent s) n with hlt | hge
    · rw [(hsome n).1 hlt] at hs
      cases hs
      exact ⟨hlt, hnone⟩
    · obtain ⟨r, hr, -⟩ := (hsome n).2 hge
      rw [hr] at hs
      cases hs

/-- A result within a limit has cost what had been paid and is that of the unlimited loop, or the
limit is spent and has given it. -/
theorem of_step_some_finish {n : Nat} {s : σ} {r : ρ} (hs : step (some n) s = .finish r) :
    (total r = spent s ∧ step none s = .finish r) ∨ Refused n s r := by
  rcases h.turn s with ⟨r', hcost, hr⟩ | ⟨u, -, -, hsome⟩
  · rw [hr (some n)] at hs
    cases hs
    exact .inl ⟨hcost, hr none⟩
  · rcases Nat.lt_or_ge (spent s) n with hlt | hge
    · rw [(hsome n).1 hlt] at hs
      cases hs
    · obtain ⟨r', hr, hrefused⟩ := (hsome n).2 hge
      rw [hr] at hs
      cases hs
      exact .inr hrefused

variable {s : σ} (hs : spent s = 0)

include hs

/-- At the head of turn `k`, the loop has paid for the `k` turns before. -/
theorem spent_of_after {k : Nat} {t : σ} (ht : after (step none) k s = some t) : spent t = k := by
  refine after_induction (P := fun k t => spent t = k) hs ?_ ht
  rintro k t u - hk hu
  rw [(h.of_step_none hu).1, hk]

/-- **Within its limit, the limited loop is where the unlimited one is.** -/
theorem after_limited_iff {n k : Nat} {t : σ} :
    after (step (some n)) k s = some t ↔ k ≤ n ∧ after (step none) k s = some t := by
  constructor
  · intro ht
    refine after_induction (P := fun k t => k ≤ n ∧ after (step none) k s = some t)
      ⟨Nat.zero_le n, rfl⟩ ?_ ht
    rintro k t u - ⟨-, ht⟩ hu
    obtain ⟨hlt, hnone⟩ := h.of_step_some hu
    rw [h.spent_of_after hs ht] at hlt
    exact ⟨hlt, after_succ_eq_some_iff.2 ⟨t, ht, hnone⟩⟩
  · rintro ⟨hk, ht⟩
    induction k generalizing t with
    | zero => exact ht
    | succ k ih =>
      obtain ⟨u, hu, hnone⟩ := after_succ_eq_some_iff.1 ht
      have hlt : spent u < n := by
        rw [h.spent_of_after hs hu]
        exact hk
      have hsome := ((h.of_step_none hnone).2 n).1 hlt
      exact after_succ_eq_some_iff.2 ⟨u, ih (Nat.le_of_succ_le hk) hu, hsome⟩

/-- **A result that costs no more than the limit** is the result within the limit. -/
theorem run_limited {turns : Nat} {r : ρ} (hr : run (step none) turns s = some r) {n : Nat}
    (hn : total r ≤ n) : run (step (some n)) turns s = some r := by
  obtain ⟨k, hk, t, ht, hfinish⟩ := run_eq_some_iff.1 hr
  obtain ⟨hcost, hlimit⟩ := h.of_step_none_finish hfinish
  rw [hcost, h.spent_of_after hs ht] at hn
  exact run_eq_some_iff.2 ⟨k, hk, t, (h.after_limited_iff hs).2 ⟨hn, ht⟩, hlimit (some n)⟩

/-- **A loop that would spend more than the limit is refused:** it gets to the head of turn `n`,
where all has been spent, and the limit gives the result there. -/
theorem exists_refused {n : Nat}
    (hn : ¬ ∃ turns r, run (step none) turns s = some r ∧ total r ≤ n) :
    ∃ t r, after (step none) n s = some t ∧ spent t = n ∧
      run (step (some n)) (n + 1) s = some r ∧ Refused n t r := by
  rcases exists_run_or_after (step none) n s with ⟨r, hr⟩ | ⟨t, ht⟩
  · refine absurd ⟨n, r, hr, ?_⟩ hn
    obtain ⟨k, hk, t, ht, hfinish⟩ := run_eq_some_iff.1 hr
    rw [(h.of_step_none_finish hfinish).1, h.spent_of_after hs ht]
    exact Nat.le_of_lt hk
  · have hspent : spent t = n := h.spent_of_after hs ht
    cases hnone : step none t with
    | finish r =>
      refine absurd ⟨n + 1, r, run_eq_some_iff.2 ⟨n, Nat.lt_succ_self n, t, ht, hnone⟩, ?_⟩ hn
      exact Nat.le_of_eq ((h.of_step_none_finish hnone).1.trans hspent)
    | «continue» u =>
      obtain ⟨r, hr, hrefused⟩ := ((h.of_step_none hnone).2 n).2 (Nat.le_of_eq hspent.symm)
      have hlimited := (h.after_limited_iff hs).2 ⟨Nat.le_refl n, ht⟩
      refine ⟨t, r, ht, hspent, run_eq_some_iff.2 ?_, hrefused⟩
      exact ⟨n, Nat.lt_succ_self n, t, hlimited, hr⟩

/-- **A limited loop ends:** it has a result after one turn more than it can pay for, and has spent
no more than its limit, if a refusal costs nothing. -/
theorem exists_run_limited
    (hrefused : ∀ {n : Nat} {t : σ} {r : ρ}, Refused n t r → total r = spent t) (n : Nat) :
    ∃ r, run (step (some n)) (n + 1) s = some r ∧ total r ≤ n := by
  rcases exists_run_or_after (step (some n)) (n + 1) s with ⟨r, hr⟩ | ⟨t, ht⟩
  · obtain ⟨k, -, t, ht, hfinish⟩ := run_eq_some_iff.1 hr
    obtain ⟨hk, ht⟩ := (h.after_limited_iff hs).1 ht
    have hspent := h.spent_of_after hs ht
    have hcost : total r = spent t := by
      rcases h.of_step_some_finish hfinish with ⟨hcost, -⟩ | hbad
      · exact hcost
      · exact hrefused hbad
    exact ⟨r, hr, by omega⟩
  · obtain ⟨hk, -⟩ := (h.after_limited_iff hs).1 ht
    exact absurd hk (Nat.not_succ_le_self n)

/-- What a limited loop comes to without being refused, the unlimited one comes to. -/
theorem run_unlimited {n turns : Nat} {r : ρ} (hr : run (step (some n)) turns s = some r)
    (hrefused : ∀ t, ¬ Refused n t r) : run (step none) turns s = some r := by
  obtain ⟨k, hk, t, ht, hfinish⟩ := run_eq_some_iff.1 hr
  obtain ⟨-, ht⟩ := (h.after_limited_iff hs).1 ht
  rcases h.of_step_some_finish hfinish with ⟨-, hnone⟩ | hbad
  · exact run_eq_some_iff.2 ⟨k, hk, t, ht, hnone⟩
  · exact absurd hbad (hrefused t)

end Metered
end Loop
end StateMachine
