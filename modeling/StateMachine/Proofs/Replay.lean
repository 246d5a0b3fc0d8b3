/-
# The path explains the state and the stack

`Machine.replay` makes recorded moves again, from the initial state and an empty stack, and refuses
those that the machine cannot make. Whatever a run or a search has gone through, at the head of
every turn its path can be replayed and leads to its state and its stack (`retraces_of_after`).

A search changes the stack symbol by symbol when it goes back past its choices, and cuts the path
only at the end, so this holds at the heads of turns and not within them. It asks nothing of how
contexts are rewound, but equal symbols must be the same: the symbol that is put back is the one
that the transition required.
-/

import StateMachine.Proofs.Line
import StateMachine.Puzzle.Palindrome

namespace StateMachine

universe u v w

variable {C : Type u} {K : Type v} {M : Type w}

namespace Machine

variable [BEq K] (m : Machine C K)

/-- Makes a recorded move in a state with a stack. The move must leave this state, by the transition
at the recorded position, for the target of that transition, and what it pops must be on top. -/
def retrace (p : Fin m.count × Stack K) (v : Move) : Option (Fin m.count × Stack K) :=
  if v.source = m.stateName p.1 then
    match (m.state p.1).transitions[v.index]? with
    | none => none
    | some t =>
      if v.target = m.stateName t.target ∧ p.2.admits t.pop then
        some (t.target, p.2.apply t.pop t.push)
      else none
  else none

/-- Makes the recorded moves in order, from the initial state and an empty stack. -/
def replay (moves : List Move) : Option (Fin m.count × Stack K) :=
  moves.foldlM m.retrace (m.initial, .empty)

variable {m}

/-- The move of an eligible transition can be made again. -/
theorem retrace_move {g : Configuration m} {i : Fin g.transitions.length} (h : g.eligible i) :
    m.retrace (g.state, g.stack) (g.move i) = some ((g.fire i).state, (g.fire i).stack) := by
  obtain ⟨hadmits, -⟩ := Bool.and_eq_true_iff.1 h
  have ht : g.transitions[i.val]? = some (g.transition i) := List.getElem?_eq_getElem i.isLt
  have hsource : (g.move i).source = m.stateName g.state := rfl
  have hindex : (g.move i).index = i := rfl
  have htarget : (g.move i).target = m.stateName (g.transition i).target := rfl
  rw [retrace, if_pos hsource, hindex, ht]
  exact if_pos ⟨htarget, hadmits⟩

end Machine

/-- The path begins in the initial state and ends in the current one, and replaying its moves leads
to the current state and stack. -/
structure Place.Retraces [BEq K] {m : Machine C K} (p : Place m) : Prop where
  start : p.path.start = m.stateName m.initial
  last : p.path.last = m.stateName p.state
  replay : m.replay p.path.moves.toList = some (p.state, p.stack)

section Retraces

variable [BEq K] {m : Machine C K}

/-- Nothing has to be retraced before the first move. -/
theorem retraces_start (m : Machine C K) : (Place.start m).Retraces := ⟨rfl, rfl, rfl⟩

/-- Firing an eligible transition adds to the path the move that explains it. -/
theorem Place.Retraces.fire {g : Configuration m} (h : g.place.Retraces)
    {i : Fin g.transitions.length} (hi : g.eligible i) : (g.fire i).place.Retraces := by
  refine ⟨h.start, Path.last_push _ _, ?_⟩
  have hmoves : (g.fire i).path.moves.toList = g.path.moves.toList ++ [g.move i] :=
    Array.toList_push
  have hreplay : m.replay g.path.moves.toList = some (g.state, g.stack) := h.replay
  rw [Machine.replay] at hreplay
  change m.replay (g.fire i).path.moves.toList = _
  rw [hmoves, Machine.replay, List.foldlM_append, hreplay]
  simp only [Option.bind_eq_bind, Option.bind_some, List.foldlM_cons, List.foldlM_nil,
    Machine.retrace_move hi]
  rfl

/-- The place at the end of a line is explained by its path. -/
theorem Line.retraces {l : List (Firing m)} {p : Place m} (h : Line l p) : p.Retraces := by
  induction h with
  | nil => exact retraces_start m
  | cons _ hi ih => exact ih.fire hi

end Retraces

section Direct

variable [Input C] [BEq K] {m : Machine C K} {limits : Limits} {c : C}

/-- The move at position `j` of the path was made in turn `j`, counted from zero, and by the first
transition that was eligible then. -/
def FirstAt (m : Machine C K) (limits : Limits) (c : C) (j : Nat) (v : Move) : Prop :=
  ∃ g e i, Loop.after (Configuration.step limits) j (Configuration.start m c) = some g ∧
    g.turn = .choice e i ∧ e.move i = v ∧ e.eligible i ∧ ∀ i' < i, ¬ e.eligible i'

/-- **A direct run makes one move in each turn, always by the first eligible transition.** -/
theorem firstAt_of_after {n : Nat} {g : Configuration m}
    (h : Loop.after (Configuration.step limits) n (Configuration.start m c) = some g) :
    g.place.Retraces ∧ g.path.length = n ∧
      ∀ j v, g.path.moves[j]? = some v → FirstAt m limits c j v := by
  refine Loop.after_induction (P := fun n g => g.place.Retraces ∧ g.path.length = n ∧
    ∀ j v, g.path.moves[j]? = some v → FirstAt m limits c j v) ?_ ?_ h
  · exact ⟨retraces_start m, rfl, fun j v hj => by cases hj⟩
  · rintro n g g' hg ⟨hr, hlength, hfirst⟩ hs
    obtain ⟨e, i, ht, -, rfl⟩ := Configuration.exists_choice_of_step hs
    obtain ⟨he, hi⟩ := Configuration.of_turn_eq_choice ht
    obtain ⟨-, hi, hmin⟩ := Configuration.select_eq_some_iff.1 hi
    have hplace : e.place = g.place := by rw [he, Configuration.place_enter]
    have hpath : e.path = g.path := congrArg Place.path hplace
    have hmoves : (e.fire i).path.moves = g.path.moves.push (e.move i) := by rw [← hpath]; rfl
    refine ⟨Place.Retraces.fire (hplace ▸ hr) hi, ?_, fun j v hj => ?_⟩
    · rw [Configuration.path_fire, Path.length_push, hpath, hlength]
    · rw [hmoves, Array.getElem?_push] at hj
      split at hj
      · rename_i hlast
        have hn : j = n := hlast.trans hlength
        subst hn
        exact ⟨g, e, i, hg, ht, Option.some.inj hj, hi, fun i' hi' => hmin i' (Nat.zero_le _) hi'⟩
      · exact hfirst j v hj

end Direct

/-- **The path explains the state and the stack**, at the head of every turn of every direct run
and of every search. In a direct run, moreover, each recorded transition was the first one eligible
in its turn. -/
theorem retraces_of_after [Input C] [Rewind C M] [BEq K] [LawfulBEq K] (m : Machine C K)
    (limits : Limits) (c : C) (n : Nat) :
    (∀ g, Loop.after (Configuration.step limits) n (Configuration.start m c) = some g →
      g.place.Retraces ∧ ∀ j v, g.path.moves[j]? = some v → FirstAt m limits c j v) ∧
    (∀ s, Loop.after (Search.step limits) n (Search.start m M limits c) = some s →
      s.config.place.Retraces) := by
  refine ⟨fun g hg => ?_, fun s hs => ?_⟩
  · obtain ⟨hr, -, hfirst⟩ := firstAt_of_after hg
    exact ⟨hr, hfirst⟩
  · obtain ⟨l, hl⟩ := Search.lined_of_after hs
    exact hl.line.retraces

/-- A direct run on `aa` at its third turn, and a search on `aa` after it has returned once. -/
theorem palindrome_retraces :
    (∃ g, Loop.after (Configuration.step {}) 2
        (Configuration.start Palindrome.machine (Tape.ofString "aa")) = some g ∧
      g.place.Retraces ∧
        ∀ j v, g.path.moves[j]? = some v →
          FirstAt Palindrome.machine {} (Tape.ofString "aa") j v) ∧
    ∃ s, Loop.after (Search.step {}) 7
        (Search.start Palindrome.machine Nat {} (Tape.ofString "aa")) = some s ∧
      s.backtracks = 1 ∧ s.config.place.Retraces :=
  ⟨⟨_, rfl, (retraces_of_after Palindrome.machine {} (Tape.ofString "aa") 2).1 _ rfl⟩,
    _, rfl, rfl, (retraces_of_after Palindrome.machine {} (Tape.ofString "aa") 7).2 _ rfl⟩

end StateMachine
