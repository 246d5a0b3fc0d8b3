/-
# Machines with the same states in other places

A *renumbering* gives each state of a machine a place in the row of another one, where the same
state stands, its transitions leading to the new places of their targets. A run refers to states by
their places throughout: the current state, the targets, the choices on the trail. But nothing that
it does depends on a place itself, so every part of a turn commutes with the renumbering
(`Configuration.turn_renumber`, `Search.resume_renumber`), and the two machines report the same
(`Machine.Renumbering.run_eq`, `Machine.Renumbering.search_eq`).
-/

import StateMachine.Proofs.Draft.Resolution
import StateMachine.Proofs.Firing
import StateMachine.Proofs.Loop

namespace StateMachine

universe u v w

variable {C : Type u} {K : Type v} {M : Type w}

/-- The states of `m` stand in `m'`, perhaps at other places. -/
structure Machine.Renumbering (m m' : Machine C K) where
  /-- The place in `m'` of a state of `m`. -/
  place : Fin m.count → Fin m'.count
  /-- It is the same state there, and leads to the same states. -/
  state : ∀ i, m'.state (place i) = (m.state i).retarget place
  initial : m'.initial = place m.initial
  policy : m'.policy = m.policy

namespace Machine.Renumbering

variable {m m' : Machine C K} (r : m.Renumbering m')

/-- A state keeps its name. -/
@[simp] theorem stateName_place (i : Fin m.count) : m'.stateName (r.place i) = m.stateName i := by
  rw [stateName, r.state]
  rfl

/-- At corresponding states the machines decide alike. -/
theorem decide_place [Input C] (i : Fin m.count) (c : C) (s : Stack K) :
    m'.decide (r.place i) c s = m.decide i c s := by
  unfold decide
  rw [r.state, r.policy]
  rfl

end Machine.Renumbering

variable {m m' : Machine C K} (r : m.Renumbering m')

/-! ## Direct runs -/

namespace Configuration

/-- The same moment of a run of the other machine. -/
def renumber (g : Configuration m) : Configuration m' where
  state := r.place g.state
  context := g.context
  stack := g.stack
  path := g.path
  steps := g.steps
  notices := g.notices

/-- Both runs begin alike. -/
theorem start_renumber (c : C) : (start m c).renumber r = start m' c := by
  simp only [renumber, start, r.initial, r.stateName_place]

variable (g : Configuration m)

/-- Renumbering does not touch the count of fired transitions. -/
@[simp] theorem steps_renumber : (g.renumber r).steps = g.steps := rfl

/-- The current state keeps its name. -/
@[simp] theorem stateName_renumber : (g.renumber r).stateName = g.stateName :=
  r.stateName_place g.state

/-- Entering comes to the same in both machines. -/
theorem enter_renumber : (g.renumber r).enter = (g.enter.1.renumber r, g.enter.2) := by
  have haction : (m'.state (g.renumber r).state).action = (m.state g.state).action := by
    rw [renumber, r.state]
    rfl
  cases he : (m.state g.state).action g.context g.stack with
  | mk c signal =>
    have he' : (m'.state (g.renumber r).state).action g.context g.stack = (c, signal) := by
      rw [haction, he]
    rw [enter_eq he, enter_eq he', entered, stateName_renumber]
    rfl

/-- Deciding at an impasse comes to the same in both machines. -/
theorem decide_renumber [Input C] :
    (g.renumber r).decide = (g.decide.1.renumber r, g.decide.2) := by
  have hdecide : m'.decide (g.renumber r).state (g.renumber r).context (g.renumber r).stack =
      m.decide g.state g.context g.stack := r.decide_place g.state g.context g.stack
  simp only [decide, hdecide]
  rfl

/-- The current state has the same transitions in the same order, their targets renumbered. -/
theorem transitions_renumber : (g.renumber r).transitions =
    g.transitions.map fun t => t.withTarget (r.place t.target) := by
  have hstate : m'.state (g.renumber r).state = (m.state g.state).retarget r.place :=
    r.state g.state
  rw [transitions, hstate]
  rfl

/-- The current state has as many transitions as before. -/
theorem length_transitions_renumber :
    (g.renumber r).transitions.length = g.transitions.length := by
  rw [transitions_renumber, List.length_map]

/-- The same position among the transitions of the current state, of which there are as many. -/
def reindex (i : Fin g.transitions.length) : Fin (g.renumber r).transitions.length :=
  i.cast (g.length_transitions_renumber r).symm

/-- Every transition of the renumbered state comes from one of the state. -/
theorem exists_reindex (j : Fin (g.renumber r).transitions.length) : ∃ i, g.reindex r i = j :=
  ⟨j.cast (g.length_transitions_renumber r), rfl⟩

/-- Transitions at the same position are the same but for the number of the target. -/
theorem transition_renumber (i : Fin g.transitions.length) :
    (g.renumber r).transition (g.reindex r i) =
      (g.transition i).withTarget (r.place (g.transition i).target) := by
  have hget := List.getElem_of_eq (g.transitions_renumber r) (g.reindex r i).isLt
  rw [List.getElem_map] at hget
  exact hget

/-- Firing is recorded by names, so that both machines record the same. -/
theorem move_renumber (i : Fin g.transitions.length) :
    (g.renumber r).move (g.reindex r i) = g.move i := by
  simp only [move, transition_renumber, stateName_renumber, Transition.withTarget,
    r.stateName_place]
  rfl

/-- **Firing is the same with other places.** -/
theorem fire_renumber (i : Fin g.transitions.length) :
    (g.renumber r).fire (g.reindex r i) = (g.fire i).renumber r := by
  simp only [fire, transition_renumber, move_renumber, stateName_renumber]
  rfl

section Symbols

variable [BEq K]

/-- Transitions at the same position are eligible together. -/
theorem eligible_renumber (i : Fin g.transitions.length) :
    (g.renumber r).eligible (g.reindex r i) = g.eligible i := by
  rw [eligible, transition_renumber]
  rfl

/-- The same transition is the first eligible one. -/
theorem select_renumber (low : Nat) :
    (g.renumber r).select low = (g.select low).map (g.reindex r) := by
  cases hs : g.select low with
  | none =>
    rw [select_eq_none_iff] at hs
    refine select_eq_none_iff.2 fun j hj => ?_
    obtain ⟨j, rfl⟩ := g.exists_reindex r j
    rw [eligible_renumber]
    exact hs j hj
  | some i =>
    obtain ⟨hlow, hi, hfirst⟩ := select_eq_some_iff.1 hs
    have hi' : (g.renumber r).eligible (g.reindex r i) := by rwa [eligible_renumber]
    refine select_eq_some_iff.2 ⟨hlow, hi', fun j hj hji => ?_⟩
    obtain ⟨j, rfl⟩ := g.exists_reindex r j
    rw [eligible_renumber]
    exact hfirst j hj hji

variable [Input C]

/-- What a turn of the other machine leads to. -/
def Turn.renumber : Turn m → Turn m'
  | .settled g outcome => .settled (g.renumber r) outcome
  | .choice g i => .choice (g.renumber r) (g.reindex r i)

/-- **A turn is the same with other places.** -/
theorem turn_renumber : (g.renumber r).turn = g.turn.renumber r := by
  rw [turn, turn, enter_renumber]
  rcases g.enter with ⟨e, signal⟩
  cases signal with
  | accept => rfl
  | reject reason => rfl
  | proceed =>
    simp only [select_renumber]
    cases e.select 0 with
    | some i => rfl
    | none =>
      simp only [Option.map_none, decide_renumber]
      rfl

/-- A turn of a direct run comes to the same in both machines. -/
theorem step_renumber (limits : Limits) :
    (g.renumber r).step limits = (g.step limits).map (renumber r) id := by
  rw [step, step, turn_renumber]
  cases g.turn with
  | settled e o => rfl
  | choice e i =>
    simp only [Turn.renumber, steps_renumber]
    cases limits.exceeded e.steps with
    | some o => rfl
    | none =>
      simp only [fire_renumber]
      rfl

end Symbols
end Configuration

/-- **Direct runs of the two machines report the same.** -/
theorem Machine.Renumbering.run_eq [Input C] [BEq K] (r : m.Renumbering m') (limits : Limits)
    (c : C) (turns : Nat) : m'.run limits c turns = m.run limits c turns := by
  rw [run, run, ← Configuration.start_renumber r,
    Loop.run_map (fun _ g _ => g.step_renumber r limits) turns]
  exact Option.map_id'

/-! ## Searches -/

namespace Search

/-- The same moment of a search of the other machine. -/
def renumber (s : Search m M) : Search m' M where
  config := s.config.renumber r
  trail := s.trail.map r.place
  backtracks := s.backtracks

/-- Both searches begin alike. -/
theorem start_renumber (limits : Limits) (c : C) :
    (start m M limits c).renumber r = start m' M limits c := by
  rw [renumber, start, Configuration.start_renumber]
  rfl

variable [Rewind C M] (g : Configuration m)

/-- Both machines note the same about a transition, the number of the state apart. -/
theorem choiceOf_renumber (i : Fin g.transitions.length) :
    choiceOf (M := M) (g.renumber r) (g.reindex r i) = (choiceOf g i).map r.place := by
  rw [choiceOf, Configuration.transition_renumber]
  rfl

/-- Going back past a choice comes to the same in both machines. -/
theorem restore_renumber (c : Choice (Fin m.count) M K) :
    restore (g.renumber r) (c.map r.place) = (restore g c).renumber r := rfl

/-- Firing in a search comes to the same in both machines. -/
theorem fire_renumber (limits : Limits) (i : Fin g.transitions.length)
    (trail : Trail (Fin m.count) M K) (backtracks : Nat) :
    fire limits (g.renumber r) (g.reindex r i) (trail.map r.place) backtracks =
      (fire limits g i trail backtracks).map (renumber r) id := by
  rw [fire, fire, Configuration.steps_renumber]
  cases limits.exceeded g.steps with
  | some o => rfl
  | none =>
    rw [choiceOf_renumber, ← Trail.map_push, Configuration.fire_renumber]
    rfl

/-- Firing on return is the same: the notice of the return gives the state by its name. -/
theorem fire_returned_renumber (limits : Limits) (c : Choice (Fin m.count) M K)
    (i : Fin g.transitions.length) (trail : Trail (Fin m.count) M K) (backtracks : Nat) :
    fire limits (returned (g.renumber r) (c.map r.place)) (g.reindex r i) (trail.map r.place)
        backtracks =
      (fire limits (returned g c) i trail backtracks).map (renumber r) id := by
  unfold returned
  rw [Configuration.stateName_renumber]
  exact fire_renumber r (returned g c) limits i trail backtracks

variable [BEq K]

/-- **Returning is the same with other places.** -/
theorem resume_renumber (limits : Limits) (reason : String) (trail : Trail (Fin m.count) M K)
    (backtracks : Nat) (choices : List (Choice (Fin m.count) M K)) (g : Configuration m) :
    resume limits reason (trail.map r.place) backtracks (choices.map (.map r.place))
        (g.renumber r) =
      (resume limits reason trail backtracks choices g).map (renumber r) id := by
  induction choices generalizing g with
  | nil => rfl
  | cons c choices ih =>
    have hselect : ((restore g c).renumber r).select ((c.map r.place).taken + 1) =
        ((restore g c).select (c.taken + 1)).map ((restore g c).reindex r) :=
      (restore g c).select_renumber r (c.taken + 1)
    rw [List.map_cons, resume, resume, restore_renumber]
    simp only [hselect]
    cases (restore g c).select (c.taken + 1) with
    | none => exact ih (restore g c)
    | some i =>
      exact fire_returned_renumber r (restore g c) limits c i { trail with choices := choices }
        (backtracks + 1)

variable [Input C]

/-- A turn of a search comes to the same in both machines. -/
theorem step_renumber (limits : Limits) (s : Search m M) :
    step limits (s.renumber r) = (step limits s).map (renumber r) id := by
  rw [step, step]
  have hturn : (s.renumber r).config.turn = s.config.turn.renumber r := s.config.turn_renumber r
  rw [hturn]
  cases s.config.turn with
  | settled g o =>
    cases o with
    | accepted => rfl
    | rejected reason =>
      exact resume_renumber r limits reason s.trail s.backtracks s.trail.choices g
  | choice g i => exact fire_renumber r g limits i s.trail s.backtracks

end Search

/-- **Searches of the two machines report the same.** -/
theorem Machine.Renumbering.search_eq [Input C] [Rewind C M] [BEq K] (r : m.Renumbering m')
    (limits : Limits) (c : C) (turns : Nat) :
    m'.search (M := M) limits c turns = m.search (M := M) limits c turns := by
  rw [search, search, ← Search.start_renumber r,
    Loop.run_map (fun _ s _ => Search.step_renumber r limits s) turns]
  exact Option.map_id'

end StateMachine
