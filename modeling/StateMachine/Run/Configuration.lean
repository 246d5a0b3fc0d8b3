/-
# Configurations of a run

A configuration is all that a run of a machine consists of at a moment: the current state, the
context, the symbol stack, the path so far, the number of transitions fired, and the notices given
so far (the latest first).

A run proceeds by turns. `Configuration.turn` enters the current state and says what comes of it:
the run is settled, by the action or by the decision at an impasse, or the first eligible
transition is to be fired. Firing is a separate operation, since a limit may forbid it and a search
first notes where it stands.
-/

import StateMachine.Machine
import StateMachine.Run.Event
import StateMachine.Run.Limits
import StateMachine.Run.Loop

namespace StateMachine

universe u v

variable {C : Type u} {K : Type v}

/-- A moment of a run of `m`. -/
structure Configuration (m : Machine C K) where
  state : Fin m.count
  context : C
  stack : Stack K
  path : Path
  /-- The number of transitions fired, also those that a search has taken back. -/
  steps : Nat
  /-- The notices given so far, the latest first. -/
  notices : List (Notice C)

namespace Configuration

variable {m : Machine C K}

/-- The beginning of a run: the initial state, an empty stack, no move made. -/
def start (m : Machine C K) (c : C) : Configuration m where
  state := m.initial
  context := c
  stack := .empty
  path := .nil (m.stateName m.initial)
  steps := 0
  notices := []

/-- The name of the current state. -/
def stateName (g : Configuration m) : String := m.stateName g.state

/-- The transitions of the current state. -/
abbrev transitions (g : Configuration m) : List (Transition C K (Fin m.count)) :=
  (m.state g.state).transitions

/-- The transition of the current state at a position. -/
def transition (g : Configuration m) (i : Fin g.transitions.length) :
    Transition C K (Fin m.count) :=
  g.transitions[i]

/-- Gives notice of an event. -/
def notify (g : Configuration m) (e : Event) : Configuration m :=
  { g with notices := { event := e, context := g.context } :: g.notices }

/-- Enters the current state: its action runs on the context. -/
def enter (g : Configuration m) : Configuration m × Signal :=
  let g := g.notify (.entered g.stateName)
  let (context, signal) := (m.state g.state).action g.context g.stack
  ({ g with context }, signal)

/-- A transition of the current state may fire. -/
def eligible [BEq K] (g : Configuration m) (i : Fin g.transitions.length) : Bool :=
  (g.transition i).eligible g.context g.stack

/-- The first eligible transition of the current state whose position is at least `low`. -/
def select [BEq K] (g : Configuration m) (low : Nat) : Option (Fin g.transitions.length) :=
  (List.finRange g.transitions.length).find? fun i => decide (low ≤ i) && g.eligible i

/-- The move that a transition of the current state makes. -/
def move (g : Configuration m) (i : Fin g.transitions.length) : Move where
  source := g.stateName
  target := m.stateName (g.transition i).target
  index := i

/-- Fires a transition of the current state: pops and pushes, extends the path and moves to the
target. Notice of leaving is given before, notice of the move after the stack has changed. -/
def fire (g : Configuration m) (i : Fin g.transitions.length) : Configuration m :=
  let t := g.transition i
  let move := g.move i
  let g := (g.notify (.left g.stateName)).notify (.fired move)
  { g with
    state := t.target
    stack := g.stack.apply t.pop t.push
    path := g.path.push move
    steps := g.steps + 1 }

section Fire

variable (g : Configuration m) (i : Fin g.transitions.length)

/-- Firing leads to the target of the transition. -/
@[simp] theorem state_fire : (g.fire i).state = (g.transition i).target := rfl

/-- Firing does not touch the context. -/
@[simp] theorem context_fire : (g.fire i).context = g.context := rfl

/-- Firing takes off the stack what the transition requires and adds what it pushes. -/
@[simp] theorem stack_fire :
    (g.fire i).stack = g.stack.apply (g.transition i).pop (g.transition i).push := rfl

/-- Firing makes the path longer by the move of the transition. -/
@[simp] theorem path_fire : (g.fire i).path = g.path.push (g.move i) := rfl

/-- Firing is counted as one step. -/
@[simp] theorem steps_fire : (g.fire i).steps = g.steps + 1 := rfl

/-- A path that ends in the current state does so after each transition. -/
theorem last_path_fire : (g.fire i).path.last = (g.fire i).stateName := by
  simp [move, stateName]

end Fire

/-- **The selected transition is the first one** that is eligible, from `low` on. -/
theorem select_eq_some_iff [BEq K] {g : Configuration m} {low : Nat}
    {i : Fin g.transitions.length} :
    g.select low = some i ↔
      low ≤ i ∧ g.eligible i ∧ ∀ j, low ≤ j.val → j < i → ¬ g.eligible j := by
  simp only [select, List.find?_eq_some_iff_getElem, Bool.and_eq_true, decide_eq_true_eq]
  constructor
  · rintro ⟨⟨hl, he⟩, k, hk, rfl, hmin⟩
    refine ⟨hl, he, fun j hj hji hje => ?_⟩
    have := hmin j.val (by simpa [Fin.lt_def] using hji)
    simp [hj, hje] at this
  · rintro ⟨hl, he, hmin⟩
    refine ⟨⟨hl, he⟩, i.val, by simp, by simp, fun j hj => ?_⟩
    by_cases hlj : low ≤ j
    · simpa [hlj] using hmin ⟨j, by omega⟩ hlj hj
    · simp [hlj]

/-- Nothing is selected just if no transition from the given one on is eligible. -/
theorem select_eq_none_iff [BEq K] {g : Configuration m} {low : Nat} :
    g.select low = none ↔ ∀ j : Fin g.transitions.length, low ≤ j.val → ¬ g.eligible j := by
  simp [select, List.find?_eq_none]

/-- The decision at an impasse of the current state. -/
def decide [Input C] (g : Configuration m) : Configuration m × Outcome :=
  let (context, outcome) := m.decide g.state g.context g.stack
  ({ g with context }, outcome)

/-- What a turn of a run leads to. -/
inductive Turn (m : Machine C K) where
  /-- The action or the decision at an impasse has settled the outcome. -/
  | settled (g : Configuration m) (outcome : Outcome)
  /-- The given transition is to be fired. -/
  | choice (g : Configuration m) (i : Fin g.transitions.length)

/-- Enters the current state and looks for a transition. -/
def turn [Input C] [BEq K] (g : Configuration m) : Turn m :=
  match g.enter with
  | (g, .accept) => .settled g .accepted
  | (g, .reject reason) => .settled g (.rejected reason)
  | (g, .proceed) =>
    match g.select 0 with
    | some i => .choice g i
    | none => .settled g.decide.1 g.decide.2

end Configuration
end StateMachine
