/-
# Runs of a table

A run of a table proceeds as one of a machine does, but every state and every transition is looked
up by its number, and every symbol that is taken off the stack has to be there. Where it is not, the
run ends with a *fault*. This is what could go wrong in a run if references were not resolved.

A run of the table of a machine is the run of the machine, turn by turn, and has no fault
(`Configuration.advance_numbered`).
-/

import StateMachine.Proofs.Loop
import StateMachine.Proofs.Table.Basic
import StateMachine.Proofs.Turn

namespace StateMachine

universe u v w

variable {C : Type u} {K : Type v}

/-- What is not there when a run needs it. -/
inductive Fault where
  | noState (number : Nat)
  | noTransition (state : String) (index : Nat)
  /-- The stack is empty. -/
  | noSymbol
  /-- Another symbol than the required one is on top of the stack. -/
  | wrongSymbol
  deriving DecidableEq, Repr

/-- A turn that may have a fault, as one that ends with it. -/
def Progress.orFault {σ : Type u} {ρ : Type v} :
    Except Fault (Progress σ ρ) → Progress σ (Except Fault ρ)
  | .error e => .finish (.error e)
  | .ok p => p.map id .ok

namespace Stack

variable [BEq K]

/-- The stack effect of a transition, if its required symbol is on top. -/
def checkedApply (s : Stack K) (required pushed : Option K) : Except Fault (Stack K) :=
  match required, s.top? with
  | none, _ => .ok (s.apply required pushed)
  | some _, none => .error .noSymbol
  | some k, some a => if a == k then .ok (s.apply required pushed) else .error .wrongSymbol

/-- The stack effect has no fault on a stack that admits the transition. -/
theorem checkedApply_of_admits {s : Stack K} {required : Option K} (h : s.admits required)
    (pushed : Option K) : s.checkedApply required pushed = .ok (s.apply required pushed) := by
  cases required with
  | none => rfl
  | some k =>
    rw [admits] at h
    cases ht : s.top? with
    | none =>
      rw [ht] at h
      cases h
    | some a =>
      rw [ht] at h
      simp only [checkedApply, ht]
      exact if_pos h

end Stack

/-- A moment of a run of a table. -/
structure Numbered (C : Type u) (K : Type v) where
  state : Nat
  context : C
  stack : Stack K
  path : Path
  steps : Nat
  notices : List (Notice C)

namespace Numbered

/-- Gives notice of an event. -/
def notify (g : Numbered C K) (e : Event) : Numbered C K :=
  { g with notices := { event := e, context := g.context } :: g.notices }

/-- The report of a run that ends here. -/
def finish (g : Numbered C K) (outcome : Outcome) (backtracks : Nat) : Report C :=
  let g := g.notify (outcome.event g.path.last)
  { outcome, path := g.path, context := g.context, steps := g.steps, backtracks,
    notices := g.notices.reverse }

/-- What a turn of a run leads to. -/
inductive Turn (C : Type u) (K : Type v) where
  | settled (g : Numbered C K) (outcome : Outcome)
  | choice (g : Numbered C K) (i : Nat)

end Numbered

namespace Table

/-- The state of the given number. -/
def stateAt (b : Table C K) (number : Nat) : Except Fault (State C K Target) :=
  match b.states[number]? with
  | none => .error (.noState number)
  | some s => .ok s

/-- The transition of a state at the given position. -/
def transitionAt (s : State C K Target) (index : Nat) : Except Fault (Transition C K Target) :=
  match s.transitions[index]? with
  | none => .error (.noTransition s.name index)
  | some t => .ok t

/-- The beginning of a run. -/
def start (b : Table C K) (c : C) : Except Fault (Numbered C K) :=
  (b.stateAt b.initial).map fun s =>
    { state := b.initial, context := c, stack := .empty, path := .nil s.name, steps := 0,
      notices := [] }

/-- Enters the current state. -/
def enter (b : Table C K) (g : Numbered C K) : Except Fault (Numbered C K × Signal) :=
  (b.stateAt g.state).map fun s =>
    let r := s.action g.context g.stack
    ({ g.notify (.entered s.name) with context := r.1 }, r.2)

/-- The first eligible transition of the current state whose position is at least `low`. -/
def select [BEq K] (b : Table C K) (g : Numbered C K) (low : Nat) : Except Fault (Option Nat) :=
  (b.stateAt g.state).map fun s =>
    ((s.transitions.zipIdx.drop low).find? fun t => t.1.eligible g.context g.stack).map Prod.snd

/-- Fires a transition of the current state. -/
def fire [BEq K] (b : Table C K) (g : Numbered C K) (i : Nat) : Except Fault (Numbered C K) :=
  (b.stateAt g.state).bind fun s =>
  (transitionAt s i).bind fun t =>
  (g.stack.checkedApply t.pop t.push).map fun stack =>
    let move : Move := { source := s.name, target := t.target.name, index := i }
    { (g.notify (.left s.name)).notify (.fired move) with
      state := t.target.number
      stack
      path := g.path.push move
      steps := g.steps + 1 }

section Input

variable [Input C]

/-- The decision at an impasse of the current state. -/
def decide (b : Table C K) (g : Numbered C K) : Except Fault (Numbered C K × Outcome) :=
  (b.stateAt g.state).map fun s =>
    let impasse : Impasse K := { state := s.name, accepting := s.accepting, stack := g.stack }
    let r :=
      match s.onImpasse with
      | some handler => handler g.context impasse
      | none => b.policy.decide g.context impasse
    ({ g with context := r.1 }, r.2)

variable [BEq K]

/-- Enters the current state and looks for a transition. -/
def turn (b : Table C K) (g : Numbered C K) : Except Fault (Numbered.Turn C K) :=
  (b.enter g).bind fun
  | (g, .accept) => .ok (.settled g .accepted)
  | (g, .reject reason) => .ok (.settled g (.rejected reason))
  | (g, .proceed) =>
    (b.select g 0).bind fun
    | some i => .ok (.choice g i)
    | none => (b.decide g).map fun r => .settled r.1 r.2

/-- One turn of a direct run, unless it has a fault. -/
def advance (b : Table C K) (limits : Limits) (g : Numbered C K) :
    Except Fault (Progress (Numbered C K) (Report C)) :=
  (b.turn g).bind fun
  | .settled g outcome => .ok (.finish (g.finish outcome 0))
  | .choice g i =>
    match limits.exceeded g.steps with
    | some outcome => .ok (.finish (g.finish outcome 0))
    | none => (b.fire g i).map .continue

/-- One turn of a direct run. -/
def step (b : Table C K) (limits : Limits) (g : Numbered C K) :
    Progress (Numbered C K) (Except Fault (Report C)) :=
  .orFault (b.advance limits g)

/-- Runs a table on a context for at most the given number of turns. -/
def run (b : Table C K) (limits : Limits) (c : C) (turns : Nat) :
    Option (Except Fault (Report C)) :=
  match b.start c with
  | .error e => some (.error e)
  | .ok g => Loop.run (b.step limits) turns g

end Input
end Table

/-! ## Runs of the table of a machine -/

namespace Machine

variable (m : Machine C K)

/-- A state of the machine as it is in the table. -/
def stateInTable (i : Fin m.count) : State C K Target :=
  (m.state i).retarget fun j => ⟨m.stateName j, j.val⟩

/-- No state of the machine is missing in its table. -/
theorem stateAt_table (i : Fin m.count) : m.table.stateAt i.val = .ok (m.stateInTable i) := by
  have hstate : m.table.states[i.val]? = some (m.stateInTable i) := by
    simp [table, stateInTable, state]
  rw [Table.stateAt, hstate]

end Machine

namespace Configuration

variable {m : Machine C K}

/-- The configuration by numbers. -/
def numbered (g : Configuration m) : Numbered C K where
  state := g.state.val
  context := g.context
  stack := g.stack
  path := g.path
  steps := g.steps
  notices := g.notices

/-- A run of the table begins like one of the machine. -/
theorem start_numbered (m : Machine C K) (c : C) :
    m.table.start c = .ok (start m c).numbered := by
  have hstate : m.table.stateAt m.table.initial = _ := m.stateAt_table m.initial
  rw [Table.start, hstate]
  rfl

variable (g : Configuration m)

/-- The table counts fired transitions like the machine. -/
@[simp] theorem steps_numbered : g.numbered.steps = g.steps := rfl

/-- The current state is found in the table. -/
theorem stateAt_numbered : m.table.stateAt g.numbered.state = .ok (m.stateInTable g.state) :=
  m.stateAt_table g.state

/-- Entering a state has no fault and comes to the same. -/
theorem enter_numbered : m.table.enter g.numbered = .ok (g.enter.1.numbered, g.enter.2) := by
  rw [Table.enter, stateAt_numbered]
  rfl

/-- Deciding at an impasse has no fault and comes to the same. -/
theorem decide_numbered [Input C] :
    m.table.decide g.numbered = .ok (g.decide.1.numbered, g.decide.2) := by
  rw [Table.decide, stateAt_numbered]
  rfl

/-- The transitions of a state in the table, with their positions. -/
theorem zipIdx_transitions (i : Fin m.count) :
    (m.stateInTable i).transitions.zipIdx =
      (List.finRange (m.state i).transitions.length).map fun j =>
        (((m.state i).transitions.get j).withTarget
          ⟨m.stateName ((m.state i).transitions.get j).target,
            ((m.state i).transitions.get j).target.val⟩,
          j.val) := by
  refine List.ext_getElem (by simp [Machine.stateInTable, State.retarget]) fun k hk hk' => ?_
  simp [Machine.stateInTable, State.retarget]

/-- Every transition of the current state is found in the table, with the number and the name of its
target. -/
theorem transitionAt_numbered (i : Fin g.transitions.length) :
    Table.transitionAt (m.stateInTable g.state) i.val =
      .ok ((g.transition i).withTarget
        ⟨m.stateName (g.transition i).target, (g.transition i).target.val⟩) := by
  have hget : (m.stateInTable g.state).transitions[i.val]? = some ((g.transition i).withTarget
      ⟨m.stateName (g.transition i).target, (g.transition i).target.val⟩) := by
    simp [Machine.stateInTable, State.retarget, transition]
  rw [Table.transitionAt, hget]

section Symbols

variable [BEq K]

/-- Selecting has no fault and finds the same position. -/
theorem select_numbered (low : Nat) :
    m.table.select g.numbered low = .ok ((g.select low).map Fin.val) := by
  rw [Table.select, stateAt_numbered, select_eq_find?]
  simp only [Except.map]
  rw [zipIdx_transitions, ← List.map_drop, List.find?_map, Option.map_map]
  rfl

/-- **An eligible transition is fired without a fault:** its required symbol is on top. -/
theorem fire_numbered {g : Configuration m} {i : Fin g.transitions.length} (h : g.eligible i) :
    m.table.fire g.numbered i.val = .ok (g.fire i).numbered := by
  have hadmits : g.stack.admits (g.transition i).pop := (Bool.and_eq_true_iff.1 h).1
  have happly := Stack.checkedApply_of_admits hadmits (g.transition i).push
  rw [Table.fire, stateAt_numbered]
  simp only [Except.bind, transitionAt_numbered]
  change (g.stack.checkedApply (g.transition i).pop (g.transition i).push).map _ = _
  rw [happly]
  rfl

variable [Input C]

/-- What a turn leads to, by numbers. -/
def Turn.numbered : Turn m → Numbered.Turn C K
  | .settled g outcome => .settled g.numbered outcome
  | .choice g i => .choice g.numbered i.val

/-- A turn has no fault and comes to the same. -/
theorem turn_numbered : m.table.turn g.numbered = .ok g.turn.numbered := by
  rw [Table.turn, enter_numbered, turn]
  rcases g.enter with ⟨e, signal⟩
  cases signal with
  | accept => rfl
  | reject reason => rfl
  | proceed =>
    simp only [Except.bind, select_numbered]
    cases e.select 0 with
    | some i => rfl
    | none =>
      simp only [Option.map_none, decide_numbered]
      rfl

variable {limits : Limits}

/-- **A turn of a direct run is the same by numbers,** and has no fault. -/
theorem advance_numbered :
    m.table.advance limits g.numbered = .ok ((g.step limits).map numbered id) := by
  rw [Table.advance, turn_numbered]
  simp only [Except.bind]
  cases ht : g.turn with
  | settled e o =>
    rw [step_of_settled ht]
    rfl
  | choice e i =>
    obtain ⟨-, hi⟩ := of_turn_eq_choice ht
    have heligible := (select_eq_some_iff.1 hi).2.1
    simp only [Turn.numbered, steps_numbered]
    cases he : limits.exceeded e.steps with
    | some o =>
      rw [step_of_exceeded ht he]
      rfl
    | none =>
      rw [step_of_choice ht he]
      simp only [fire_numbered heligible]
      rfl

/-- A turn of a direct run has no fault and comes to the same. -/
theorem step_numbered : m.table.step limits g.numbered = (g.step limits).map numbered .ok := by
  rw [Table.step, advance_numbered]
  cases g.step limits <;> rfl

end Symbols
end Configuration

/-- **A direct run of a machine is the same by numbers,** and has no fault. -/
theorem Machine.run_table [Input C] [BEq K] (m : Machine C K) (limits : Limits) (c : C)
    (turns : Nat) : m.table.run limits c turns = (m.run limits c turns).map .ok := by
  rw [Table.run, Configuration.start_numbered]
  exact Loop.run_map (fun _ g _ => g.step_numbered) turns

end StateMachine
