/-
# Limits of a run

A run may be limited in the transitions it fires, and a search also in the choices it remembers.
Either limit may be absent.
-/

import StateMachine.State

namespace StateMachine

/-- What a run may spend. -/
structure Limits where
  /-- The greatest number of transitions to fire, those taken back later included. -/
  steps : Option Nat := none
  /-- The greatest number of choices that a search remembers. -/
  trail : Option Nat := none
  deriving DecidableEq, Repr

/-- The outcome of a run that has fired `fired` transitions and is about to fire another one
against the limit; `none` if it may. -/
def Limits.exceeded (l : Limits) (fired : Nat) : Option Outcome :=
  match l.steps with
  | none => none
  | some n =>
    if fired < n then none
    else some (.rejected s!"step limit of {n} transitions exceeded")

/-- Another transition may be fired as long as fewer than the limit have been. -/
theorem Limits.exceeded_eq_none_iff {l : Limits} {fired : Nat} :
    l.exceeded fired = none ↔ ∀ n, l.steps = some n → fired < n := by
  unfold exceeded
  cases l.steps <;> simp

/-- The limit refuses a transition once as many have been fired, and says so. -/
theorem Limits.exceeded_eq_some_iff {l : Limits} {fired : Nat} {o : Outcome} :
    l.exceeded fired = some o ↔ ∃ n, l.steps = some n ∧ n ≤ fired ∧
      o = .rejected s!"step limit of {n} transitions exceeded" := by
  unfold exceeded
  cases l.steps with
  | none => simp
  | some n =>
    rcases Nat.lt_or_ge fired n with h | h
    · simp [h, Nat.not_le.2 h]
    · simp [h, Nat.not_lt.2 h, eq_comm]

end StateMachine
