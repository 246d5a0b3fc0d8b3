/-
# The law of rewinding

What a search does to its context on the way to a rejection it takes back by rewinding to a mark.
`Machine.Rewinds` says when this works: a context which the machine has made of another one goes
back to it. The machine makes contexts by the actions of its states and by decisions at impasses.
Going back is not counted among these: by the law itself it leads to a context that was there
before, from which nothing is derived that was not derived from it already.

Tapes obey the law as long as the machine does not write on them (`rewinds_of_symbols_eq`).
-/

import StateMachine.Puzzle.Palindrome

namespace StateMachine

universe u v w

variable {C : Type u} {K : Type v} {M : Type w}

namespace Machine

/-- The machine makes the second context of the first one, by actions of its states and decisions
at impasses. -/
inductive Derives [Input C] (m : Machine C K) : C → C → Prop
  | refl (c : C) : m.Derives c c
  | action {c d : C} (s : Fin m.count) (k : Stack K) :
      m.Derives c d → m.Derives c ((m.state s).action d k).1
  | decision {c d : C} (s : Fin m.count) (k : Stack K) :
      m.Derives c d → m.Derives c (m.decide s d k).1

/-- What is made of a context that was made of another one is made of that one. -/
theorem Derives.trans [Input C] {m : Machine C K} {c d e : C} (h : m.Derives c d)
    (h' : m.Derives d e) : m.Derives c e := by
  induction h' with
  | refl => exact h
  | action s k _ ih => exact ih.action s k
  | decision s k _ ih => exact ih.decision s k

/-- **The law of rewinding:** whatever the machine has made of a context goes back to it by a mark
that was taken on it. -/
def Rewinds [Input C] [Rewind C M] (m : Machine C K) : Prop :=
  ∀ c d : C, m.Derives c d → Rewind.rewind d (Rewind.mark c) = c

/-- A machine that never writes on its tape obeys the law. -/
theorem rewinds_of_symbols_eq {α : Type u} {m : Machine (Tape α) K}
    (haction : ∀ s t k, ((m.state s).action t k).1.symbols = t.symbols)
    (hdecide : ∀ s t k, (m.decide s t k).1.symbols = t.symbols) : m.Rewinds := by
  intro c d h
  refine Tape.rewind_mark c d ?_
  induction h with
  | refl => rfl
  | action s k _ ih => exact (haction s _ k).trans ih
  | decision s k _ ih => exact (hdecide s _ k).trans ih

end Machine

namespace Palindrome

/-- Eating a letter does not write on the tape. -/
theorem symbols_eat (t : Tape Char) : (eat t).symbols = t.symbols := by
  unfold eat Tape.advance
  split <;> rfl

/-- The machine for palindromes only reads. -/
theorem rewinds_machine : machine.Rewinds := by
  have haction : ∀ (s : Fin 4) t k, ((states[s]).action t k).1.symbols = t.symbols := by
    intro s t k
    match s with
    | 0 => rfl
    | 1 => exact symbols_eat t
    | 2 => rfl
    | 3 => exact symbols_eat t
  have hdecide : ∀ (s : Fin 4) t k, (machine.decide s t k).1.symbols = t.symbols := by
    intro s t k
    match s with
    | 0 => rfl
    | 1 => rfl
    | 2 => rfl
    | 3 => rfl
  exact Machine.rewinds_of_symbols_eq haction hdecide

end Palindrome
end StateMachine
