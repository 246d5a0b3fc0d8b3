/-
# What loops come to

Two views of a loop beside its result. `Loop.after step n s` is the state at the head of turn `n`,
if the loop gets there: what holds at the first head and is kept by every turn that goes on holds
at every head (`Loop.after_induction`). A result is that of the turn at the last head
(`Loop.run_eq_some_iff`), so two loops are compared head by head (`Loop.after_simulation`) and then
in the last turn.

`Loop.LeadsTo step p q` says that a loop which stands at `p` comes to stand at `q`, where `p` and
`q` may lie in the middle of a turn, after the step has been taken in part. It is how one follows a
loop through many turns without counting them: results pass through it in both directions
(`Loop.LeadsTo.proceed_eq`, `Loop.LeadsTo.exists_proceed`).
-/

import StateMachine.Run.Loop

namespace StateMachine

universe u v w x

/-- The same turn with the state or the result that it leads to given in another way. -/
def Progress.map {σ : Type u} {ρ : Type v} {σ' : Type w} {ρ' : Type x} (f : σ → σ') (g : ρ → ρ') :
    Progress σ ρ → Progress σ' ρ'
  | .continue s => .continue (f s)
  | .finish r => .finish (g r)

namespace Loop

variable {σ : Type u} {ρ : Type v} {step : σ → Progress σ ρ}

/-- The state at the head of turn `n`, counted from zero: `none` if the loop finishes before. -/
def after (step : σ → Progress σ ρ) : Nat → σ → Option σ
  | 0, s => some s
  | n + 1, s =>
    match after step n s with
    | none => none
    | some t =>
      match step t with
      | .continue t' => some t'
      | .finish _ => none

/-- The next head is reached from the one before by a turn that goes on. -/
theorem after_succ_eq_some_iff {n : Nat} {s t' : σ} :
    after step (n + 1) s = some t' ↔ ∃ t, after step n s = some t ∧ step t = .continue t' := by
  rw [after]
  cases after step n s with
  | none => simp
  | some t =>
    cases h : step t with
    | «continue» u => simp [h]
    | finish r => simp [h]

/-- **What every turn keeps holds at every head.** -/
theorem after_induction {P : Nat → σ → Prop} {s : σ} (zero : P 0 s)
    (succ : ∀ n t t', after step n s = some t → P n t → step t = .continue t' → P (n + 1) t')
    {n : Nat} {t : σ} (h : after step n s = some t) : P n t := by
  induction n generalizing t with
  | zero =>
    obtain rfl := Option.some.inj h
    exact zero
  | succ n ih =>
    obtain ⟨u, hu, hs⟩ := after_succ_eq_some_iff.1 h
    exact succ n u t hu (ih hu) hs

/-- From the head of turn `n` on, a loop runs as from its beginning. -/
theorem run_of_after {n : Nat} {s t : σ} (h : after step n s = some t) (turns : Nat) :
    run step (n + turns) s = run step turns t := by
  induction n generalizing t turns with
  | zero =>
    obtain rfl := Option.some.inj h
    rw [Nat.zero_add]
  | succ n ih =>
    obtain ⟨u, hu, hs⟩ := after_succ_eq_some_iff.1 h
    rw [Nat.add_right_comm, Nat.add_assoc, ih hu, run, hs]

/-- A loop that gets to the head of turn `n` has no result before. -/
theorem run_eq_none_of_after {n : Nat} {s t : σ} (h : after step n s = some t) :
    run step n s = none :=
  run_of_after h 0

/-- After so many turns a loop has a result, or it is at the head of the next turn. -/
theorem exists_run_or_after (step : σ → Progress σ ρ) (n : Nat) (s : σ) :
    (∃ r, run step n s = some r) ∨ ∃ t, after step n s = some t := by
  induction n with
  | zero => exact .inr ⟨s, rfl⟩
  | succ n ih =>
    rcases ih with ⟨r, hr⟩ | ⟨t, ht⟩
    · exact .inl ⟨r, run_mono hr (Nat.le_succ n)⟩
    · cases hs : step t with
      | «continue» u => exact .inr ⟨u, after_succ_eq_some_iff.2 ⟨t, ht, hs⟩⟩
      | finish r =>
        refine .inl ⟨r, ?_⟩
        rw [run_of_after ht, run, hs]

/-- **A result is that of the last turn**, whose head the loop gets to. -/
theorem run_eq_some_iff {turns : Nat} {s : σ} {r : ρ} :
    run step turns s = some r ↔ ∃ n < turns, ∃ t, after step n s = some t ∧ step t = .finish r := by
  constructor
  · intro h
    induction turns with
    | zero => cases h
    | succ turns ih =>
      rcases exists_run_or_after step turns s with ⟨r', hr'⟩ | ⟨t, ht⟩
      · obtain rfl := run_unique h hr'
        obtain ⟨n, hn, ht⟩ := ih hr'
        exact ⟨n, Nat.lt_succ_of_lt hn, ht⟩
      · refine ⟨turns, Nat.lt_succ_self turns, t, ht, ?_⟩
        rw [run_of_after ht, run] at h
        cases hs : step t with
        | «continue» u => rw [hs] at h; cases h
        | finish r' => rw [hs] at h; rw [Option.some.inj h]
  · rintro ⟨n, hn, t, ht, hs⟩
    refine run_mono (n := n + 1) ?_ hn
    rw [run_of_after ht, run, hs]

/-- There is only one last turn. -/
theorem last_unique {n n' : Nat} {s t t' : σ} {r r' : ρ} (h : after step n s = some t)
    (hr : step t = .finish r) (h' : after step n' s = some t') (hr' : step t' = .finish r') :
    t = t' := by
  have hle : ∀ {a b : Nat} {u v : σ} {q : ρ}, after step a s = some u → step u = .finish q →
      after step b s = some v → b ≤ a := by
    intro a b u v q hu hq hv
    refine Nat.le_of_not_lt fun hab => ?_
    have hrun : run step b s = some q := run_eq_some_iff.2 ⟨a, hab, u, hu, hq⟩
    rw [run_eq_none_of_after hv] at hrun
    cases hrun
  obtain rfl := Nat.le_antisymm (hle h' hr' h) (hle h hr h')
  exact Option.some.inj (h.symm.trans h')

/-- **Loops in step:** if a second loop goes on from related states whenever the first one does, and
to related states, then it gets to every head to which the first one gets. -/
theorem after_simulation {σ' : Type w} {ρ' : Type x} {step' : σ' → Progress σ' ρ'}
    {R : σ → σ' → Prop} (hstep : ∀ {t t' u}, R t t' → step t = .continue u →
      ∃ u', step' t' = .continue u' ∧ R u u')
    {s : σ} {s' : σ'} (hs : R s s') {n : Nat} {t : σ} (h : after step n s = some t) :
    ∃ t', after step' n s' = some t' ∧ R t t' := by
  refine after_induction (P := fun n t => ∃ t', after step' n s' = some t' ∧ R t t')
    ⟨s', rfl, hs⟩ ?_ h
  rintro n t u - ⟨t', ht', hR⟩ hu
  obtain ⟨u', hu', hR'⟩ := hstep hR hu
  exact ⟨u', after_succ_eq_some_iff.2 ⟨t', ht', hu'⟩, hR'⟩

section Map

variable {σ' : Type w} {ρ' : Type x} {step' : σ' → Progress σ' ρ'} {φ : σ → σ'} {ψ : ρ → ρ'} {s : σ}

/-- **Loops that are the same but for their states and results** come to the same heads, if their
steps agree at the heads to which the first one comes. -/
theorem after_map (h : ∀ n t, after step n s = some t → step' (φ t) = (step t).map φ ψ) (n : Nat) :
    after step' n (φ s) = (after step n s).map φ := by
  induction n with
  | zero => rfl
  | succ n ih =>
    rw [after, after, ih]
    cases ht : after step n s with
    | none => rfl
    | some t =>
      simp only [Option.map_some, h n t ht]
      cases step t <;> rfl

/-- Their results are the same. -/
theorem run_map (h : ∀ n t, after step n s = some t → step' (φ t) = (step t).map φ ψ)
    (turns : Nat) : run step' turns (φ s) = (run step turns s).map ψ := by
  induction turns with
  | zero => rfl
  | succ turns ih =>
    rcases exists_run_or_after step turns s with ⟨r, hr⟩ | ⟨t, ht⟩
    · rw [hr] at ih
      rw [run_mono hr (Nat.le_succ turns), run_mono ih (Nat.le_succ turns)]
      rfl
    · have ht' : after step' turns (φ s) = some (φ t) := by rw [after_map h, ht]; rfl
      rw [run_of_after ht, run_of_after ht', run, run, h turns t ht]
      cases step t <;> rfl

end Map

/-- The result of a loop that has come, perhaps in the middle of a turn, to `p`, and may take
`turns` more turns. -/
def proceed (step : σ → Progress σ ρ) (turns : Nat) : Progress σ ρ → Option ρ
  | .continue s => run step turns s
  | .finish r => some r

/-- A run of one more turn makes its first turn and then proceeds. -/
theorem run_succ (turns : Nat) (s : σ) :
    run step (turns + 1) s = proceed step turns (step s) := by
  rw [run]
  cases step s <;> rfl

/-- A result that is reached stays the same if more turns are allowed. -/
theorem proceed_mono {n n' : Nat} {p : Progress σ ρ} {r : ρ} (h : proceed step n p = some r)
    (hn : n ≤ n') : proceed step n' p = some r := by
  cases p with
  | «continue» s => exact run_mono h hn
  | finish r' => exact h

/-- A loop that stands at `p` comes to stand at `q`. -/
def LeadsTo (step : σ → Progress σ ρ) (p q : Progress σ ρ) : Prop :=
  ∃ a, ∀ turns, proceed step (a + turns) p = proceed step turns q

namespace LeadsTo

variable {p q p' : Progress σ ρ}

/-- Everything leads to itself. -/
theorem refl (p : Progress σ ρ) : LeadsTo step p p := ⟨0, fun n => by rw [Nat.zero_add]⟩

/-- What leads to something leads to whatever that leads to. -/
theorem trans (h : LeadsTo step p q) (h' : LeadsTo step q p') : LeadsTo step p p' := by
  obtain ⟨a, ha⟩ := h
  obtain ⟨b, hb⟩ := h'
  exact ⟨a + b, fun n => by rw [Nat.add_assoc, ha, hb]⟩

/-- A state at the head of a turn leads to what its step makes of it. -/
theorem head (s : σ) : LeadsTo step (.continue s) (step s) :=
  ⟨1, fun n => by rw [Nat.add_comm]; exact run_succ n s⟩

/-- A moment leads to what its step comes to. -/
theorem of_step {s : σ} (h : step s = p) : LeadsTo step (.continue s) p := h ▸ head s

/-- A result ahead is still ahead. -/
theorem proceed_eq (h : LeadsTo step p q) {n : Nat} {r : ρ} (hr : proceed step n p = some r) :
    proceed step n q = some r := by
  obtain ⟨a, ha⟩ := h
  rw [← ha]
  exact proceed_mono hr (Nat.le_add_left n a)

/-- A result that is reached from `q` is reached from `p`. -/
theorem exists_proceed (h : LeadsTo step p q) {n : Nat} {r : ρ}
    (hr : proceed step n q = some r) : ∃ n', proceed step n' p = some r := by
  obtain ⟨a, ha⟩ := h
  exact ⟨a + n, (ha n).trans hr⟩

end LeadsTo
end Loop
end StateMachine
