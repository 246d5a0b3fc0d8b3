/-
# Loops that may not end

A loop repeats a step until the step finishes with a result. Nothing says that it ever does, so a
loop is run for a number of *turns*: `Loop.run step turns s` is the result, or `none` while there
is none yet. More turns never change a result that is there.
-/

namespace StateMachine

universe u v

/-- What one turn of a loop leads to. -/
inductive Progress (σ : Type u) (ρ : Type v) where
  | continue (state : σ)
  | finish (result : ρ)

namespace Loop

variable {σ : Type u} {ρ : Type v}

/-- Repeats a step for at most the given number of turns. -/
def run (step : σ → Progress σ ρ) : Nat → σ → Option ρ
  | 0, _ => none
  | turns + 1, s =>
    match step s with
    | .continue t => run step turns t
    | .finish r => some r

/-- **A result stays:** the loop gives it for every greater number of turns. -/
theorem run_mono {step : σ → Progress σ ρ} {n m : Nat} {s : σ} {r : ρ}
    (h : run step n s = some r) (hnm : n ≤ m) : run step m s = some r := by
  induction n generalizing s m with
  | zero => simp [run] at h
  | succ n ih =>
    obtain ⟨m, rfl⟩ : ∃ k, m = k + 1 := ⟨m - 1, by omega⟩
    unfold run at h ⊢
    split at h
    · exact ih h (by omega)
    · exact h

/-- **At most one result:** whatever the numbers of turns, two results are the same. -/
theorem run_unique {step : σ → Progress σ ρ} {n m : Nat} {s : σ} {r r' : ρ}
    (h : run step n s = some r) (h' : run step m s = some r') : r = r' := by
  have hn := run_mono h (Nat.le_max_left n m)
  have hm := run_mono h' (Nat.le_max_right n m)
  exact Option.some.inj (hn.symm.trans hm)

end Loop
end StateMachine
