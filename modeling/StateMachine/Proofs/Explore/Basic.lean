/-
# Exploring: search as a recursion

A search keeps a trail, a stack that it shares between all ways it tries, and a path that it cuts
back late. `Machine.explore` is what it amounts to: a recursion over states which keeps nothing of
the sort. It enters a state and, unless the outcome is settled there, explores the targets of the
eligible transitions one after the other until one of them accepts; after each that rejects, the
context goes back to the mark taken before, and eligibility is asked anew.

The recursion may go on for ever, so it is given a greatest depth; the result is `none` if that
does not suffice.
-/

import StateMachine.Search.Basic

namespace StateMachine

universe u v w

variable {C : Type u} {K : Type v} {M : Type w}

/-- What is found by a search or by exploring a state: a report without its notices. -/
structure Finding (C : Type u) where
  outcome : Outcome
  context : C
  /-- The path to the state where it ended; after a rejection, the last path that was tried. -/
  path : Path
  /-- The number of transitions fired. -/
  steps : Nat
  /-- The number of transitions fired after another one of the same state had led to a rejection. -/
  backtracks : Nat

/-- What a report says, its notices apart. -/
def Report.finding (r : Report C) : Finding C where
  outcome := r.outcome
  context := r.context
  path := r.path
  steps := r.steps
  backtracks := r.backtracks

namespace Finding

/-- The finding with more steps and backtracks counted. -/
def add (f : Finding C) (steps backtracks : Nat) : Finding C :=
  { f with steps := steps + f.steps, backtracks := backtracks + f.backtracks }

/-- The finding with the transition counted that led to it, and with all that was counted up to
`last`, the rejection after which that transition was tried. -/
def count (f : Finding C) : Option (Finding C) → Finding C
  | none => f.add 1 0
  | some last => f.add (last.steps + 1) (last.backtracks + 1)

/-- The finding as a search words it: its rejections are told to be final. -/
def concluded (f : Finding C) : Finding C :=
  match f.outcome with
  | .accepted => f
  | .rejected reason => { f with outcome := .rejected s!"backtracking exhausted: {reason}" }

/-- What is counted in two portions is counted together. -/
theorem add_add (f : Finding C) (a b a' b' : Nat) :
    (f.add a b).add a' b' = f.add (a' + a) (b' + b) := by
  simp only [add, Nat.add_assoc]

/-- Counting nothing leaves a finding as it is. -/
@[simp] theorem add_zero (f : Finding C) : f.add 0 0 = f := by
  simp only [add, Nat.zero_add]

section Count

variable (f : Finding C) (last : Option (Finding C))

/-- Counting a transition does not change the outcome. -/
@[simp] theorem outcome_count : (f.count last).outcome = f.outcome := by cases last <;> rfl

/-- Counting a transition does not change the context. -/
@[simp] theorem context_count : (f.count last).context = f.context := by cases last <;> rfl

/-- Counting a transition does not change the path. -/
@[simp] theorem path_count : (f.count last).path = f.path := by cases last <;> rfl

end Count

/-! Only the reason of a rejection is worded anew. -/

section Concluded

variable (f : Finding C)

/-- A search words a finding with the same path. -/
theorem path_concluded : f.concluded.path = f.path := by
  unfold concluded
  split <;> rfl

/-- A search words a finding with the same number of steps. -/
theorem steps_concluded : f.concluded.steps = f.steps := by
  unfold concluded
  split <;> rfl

/-- A search words a finding with the same number of backtracks. -/
theorem backtracks_concluded : f.concluded.backtracks = f.backtracks := by
  unfold concluded
  split <;> rfl

/-- A search words acceptances as acceptances, and nothing else. -/
theorem concluded_accepted_iff : f.concluded.outcome = .accepted ↔ f.outcome = .accepted := by
  cases ho : f.outcome <;> simp [concluded, ho]

variable {f} {reason : String}

/-- What a search rejects, exploring has rejected. -/
theorem outcome_of_concluded_rejected (h : f.concluded.outcome = .rejected reason) :
    ∃ reason', f.outcome = .rejected reason' := by
  cases ho : f.outcome with
  | accepted =>
    rw [f.concluded_accepted_iff.2 ho] at h
    cases h
  | rejected reason' => exact ⟨reason', rfl⟩

/-- What exploring rejects, a search rejects. -/
theorem outcome_concluded_of_rejected (h : f.outcome = .rejected reason) :
    ∃ reason', f.concluded.outcome = .rejected reason' := by
  rw [concluded, h]
  exact ⟨_, rfl⟩

end Concluded

end Finding

namespace Machine

variable (m : Machine C K) [Input C] [Rewind C M] [BEq K]

/-- The transition of a state at a position. -/
def transitionOf (s : Fin m.count) (i : Fin (m.state s).transitions.length) :
    Transition C K (Fin m.count) :=
  (m.state s).transitions[i]

/-- The move that a transition of a state makes. -/
def moveOf (s : Fin m.count) (i : Fin (m.state s).transitions.length) : Move where
  source := m.stateName s
  target := m.stateName (m.transitionOf s i).target
  index := i

/-- Tries the given transitions of a state in order, those that are eligible: `visit` explores the
target with the context, the stack after the pop and the push, and the path after the move. It
stops at an acceptance. After a rejection the context goes back to the mark taken before, and the
later transitions are tried with it. In the end the rejection `last` before stands; if nothing was
tried at all, the state has come to an impasse. -/
def tryEach (visit : Fin m.count → C → Stack K → Path → Option (Finding C)) (s : Fin m.count)
    (k : Stack K) (h : Path) (last : Option (Finding C)) :
    List (Fin (m.state s).transitions.length) → C → Option (Finding C)
  | [], c =>
    match last with
    | none =>
      let (context, outcome) := m.decide s c k
      some { outcome, context, path := h, steps := 0, backtracks := 0 }
    | some f => some { f with context := c }
  | i :: rest, c =>
    let t := m.transitionOf s i
    if t.eligible c k then
      match visit t.target c (k.apply t.pop t.push) (h.push (m.moveOf s i)) with
      | none => none
      | some f =>
        match f.outcome with
        | .accepted => some (f.count last)
        | .rejected _ =>
          tryEach visit s k h (some (f.count last)) rest
            (Rewind.rewind f.context (Rewind.mark c))
    else tryEach visit s k h last rest c

/-- Explores a state, to at most the given depth, with a context, a stack, and the path that led to
it: enters it and, if its action says to proceed, tries its transitions. -/
def explore : Nat → Fin m.count → C → Stack K → Path → Option (Finding C)
  | 0, _, _, _, _ => none
  | depth + 1, s, c, k, h =>
    match (m.state s).action c k with
    | (context, .accept) =>
      some { outcome := .accepted, context, path := h, steps := 0, backtracks := 0 }
    | (context, .reject reason) =>
      some { outcome := .rejected reason, context, path := h, steps := 0, backtracks := 0 }
    | (context, .proceed) =>
      m.tryEach (explore depth) s k h none (List.finRange (m.state s).transitions.length) context

end Machine
end StateMachine
