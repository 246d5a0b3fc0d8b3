/-
# Search: runs that return and try another way

A search runs like a direct run, but a rejection does not end it: it returns to the latest choice
on its trail, puts back context, stack and state as they were before the transition was fired, and
takes the next eligible transition after the one it took. A choice without a next one is dropped
and the search goes on to the one before. Only when the trail is empty is the search *exhausted*
and the rejection final.

The path is cut back to the choice once another transition has been found, so an exhausted search
reports the last path it tried. Fired transitions count against the limit also when they are taken
back, and the limit is never searched over: it ends the search at once.
-/

import StateMachine.Run.Report
import StateMachine.Search.Trail

namespace StateMachine

universe u v w

variable {C : Type u} {K : Type v} {M : Type w}

/-- A moment of a search. -/
structure Search (m : Machine C K) (M : Type w) where
  config : Configuration m
  trail : Trail (Fin m.count) M K
  /-- How often the search has returned to a choice, to take another transition. -/
  backtracks : Nat

namespace Search

variable {m : Machine C K}

/-- The beginning of a search. -/
def start (m : Machine C K) (M : Type w) (limits : Limits) (c : C) : Search m M where
  config := .start m c
  trail := .empty limits.trail
  backtracks := 0

/-- The note on a transition that is about to be fired. -/
def choiceOf [Rewind C M] (g : Configuration m) (i : Fin g.transitions.length) :
    Choice (Fin m.count) M K where
  state := g.state
  mark := Rewind.mark g.context
  taken := i
  popped := (g.transition i).pop
  pushed := (g.transition i).push.isSome
  depth := g.path.length

/-- Puts back context, stack and state as the choice has noted them; the path stays. -/
def restore [Rewind C M] (g : Configuration m) (c : Choice (Fin m.count) M K) : Configuration m :=
  { g with
    context := Rewind.rewind g.context c.mark
    stack := g.stack.undo c.popped c.pushed
    state := c.state }

/-- **Going back undoes firing.** As long as the stack is the one that an eligible transition left,
whatever else has happened since, going back gives the stack that it was fired on. -/
theorem stack_restore [Rewind C M] [BEq K] [LawfulBEq K] {g e : Configuration m}
    {i : Fin g.transitions.length} (h : g.eligible i) (he : e.stack = (g.fire i).stack) :
    (restore e (choiceOf (M := M) g i)).stack = g.stack := by
  obtain ⟨hadmits, -⟩ := Bool.and_eq_true_iff.1 h
  rw [restore, he, Configuration.stack_fire]
  exact Stack.undo_apply hadmits

/-- Fires a transition if the limit allows it, and notes the choice. -/
def fire [Rewind C M] (limits : Limits) (g : Configuration m) (i : Fin g.transitions.length)
    (trail : Trail (Fin m.count) M K) (backtracks : Nat) : Progress (Search m M) (Report C) :=
  match limits.exceeded g.steps with
  | some outcome => .finish (g.finish outcome backtracks)
  | none =>
    let trail := trail.push (choiceOf g i)
    .continue { config := g.fire i, trail, backtracks }

/-- The outcome of a search that has no choice left. -/
def exhausted (g : Configuration m) (reason : String) (backtracks : Nat) : Report C :=
  let reason := s!"backtracking exhausted: {reason}"
  (g.notify (.exhausted reason)).finish (.rejected reason) backtracks

/-- Returns, after a rejection, to the latest of the given choices that has an untried eligible
transition, and fires it. `trail` supplies the limit and the count of what was forgotten. -/
def resume [Rewind C M] [BEq K] (limits : Limits) (reason : String)
    (trail : Trail (Fin m.count) M K) (backtracks : Nat) :
    List (Choice (Fin m.count) M K) → Configuration m → Progress (Search m M) (Report C)
  | [], g => .finish (exhausted g reason backtracks)
  | c :: rest, g =>
    let g := restore g c
    match g.select (c.taken + 1) with
    | none => resume limits reason trail backtracks rest g
    | some i =>
      let g' : Configuration m := { g with path := g.path.truncate c.depth }
      fire limits (g'.notify (.returned g'.stateName)) i { trail with choices := rest }
        (backtracks + 1)

/-- One turn of a search. -/
def step [Input C] [Rewind C M] [BEq K] (limits : Limits) (s : Search m M) :
    Progress (Search m M) (Report C) :=
  match s.config.turn with
  | .settled g .accepted => .finish (g.finish .accepted s.backtracks)
  | .settled g (.rejected reason) =>
    resume limits reason s.trail s.backtracks s.trail.choices g
  | .choice g i => fire limits g i s.trail s.backtracks

end Search

/-- Searches for an acceptance for at most the given number of turns, one for each state that is
entered. The result is `none` while the search goes on. -/
def Machine.search [Input C] [Rewind C M] [BEq K] (m : Machine C K) (limits : Limits) (c : C)
    (turns : Nat) : Option (Report C) :=
  Loop.run (Search.step limits) turns (Search.start m M limits c)

end StateMachine
