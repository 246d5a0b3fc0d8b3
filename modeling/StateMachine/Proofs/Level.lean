/-
# The path tells how high the stack is

`Machine.stackAfter` makes the pops and pushes of recorded moves again, from the empty stack; it
refuses a pop where there is nothing to pop, and does not ask which symbol is popped. What it leads
to is as high as the stack of the run, at the head of every turn of every direct run and of every
search (`Configuration.leveled_of_after`, `Search.leveled_of_after`).

This holds without any law for the equality of symbols. When a search goes back past a choice, it
puts back the symbol that the transition required, which may be another one than was popped; but it
puts back one symbol for each that was popped, and drops one for each that was pushed. So within a
turn the stack is as high as the path says up to the choice, though the path is not cut yet
(`Search.level_unwind`).
-/

import StateMachine.Proofs.Alignment
import StateMachine.Proofs.Line

namespace StateMachine

universe u v w

variable {C : Type u} {K : Type v} {M : Type w}

namespace Stack

/-- The stack effect of a transition, if there is a symbol to pop where one is required. -/
def exchange? (s : Stack K) (required pushed : Option K) : Option (Stack K) :=
  if required.isSome && s.isEmpty then none else some (s.apply required pushed)

/-- Firing makes the stack lower by what is popped and higher by what is pushed. -/
theorem size_apply (s : Stack K) (required pushed : Option K) :
    (s.apply required pushed).size =
      s.size - required.toList.length + pushed.toList.length := by
  obtain ⟨l⟩ := s
  cases required <;> cases pushed <;> simp [apply, size, pop, push]

/-- Undoing makes the stack lower by what was pushed and higher by what was popped. -/
theorem size_undo (s : Stack K) (popped : Option K) (pushed : Bool) :
    (s.undo popped pushed).size = s.size - pushed.toNat + popped.toList.length := by
  obtain ⟨l⟩ := s
  cases popped <;> cases pushed <;> simp [undo, size, pop, push]

/-- A stack of no height is empty. -/
theorem eq_empty_of_size {s : Stack K} (h : s.size = 0) : s = .empty := by
  obtain ⟨l⟩ := s
  have hl : l = [] := List.eq_nil_of_length_eq_zero h
  rw [hl]
  rfl

/-- A stack that admits a requirement has the symbol to pop. -/
theorem length_toList_le_of_admits [BEq K] {s : Stack K} {required : Option K}
    (h : s.admits required) : required.toList.length ≤ s.size := by
  obtain ⟨l⟩ := s
  cases required with
  | none => exact Nat.zero_le _
  | some k =>
    cases l with
    | nil => simp [admits, top?] at h
    | cons a l => simp [size]

/-- The effect is possible exactly if the stack is high enough. -/
theorem exchange?_eq_some_iff {s s' : Stack K} {required pushed : Option K} :
    s.exchange? required pushed = some s' ↔
      required.toList.length ≤ s.size ∧ s' = s.apply required pushed := by
  obtain ⟨l⟩ := s
  cases required <;> cases l <;> simp [exchange?, isEmpty, size, eq_comm]

end Stack

namespace Machine

variable (m : Machine C K)

/-- The transition that was fired in a recorded move. -/
def transitionFor (v : Move) : Option (Transition C K (Fin m.count)) :=
  (m.find? v.source).bind fun i => (m.state i).transitions[v.index]?

/-- Makes the stack effect of a recorded move again. -/
def restack (s : Stack K) (v : Move) : Option (Stack K) :=
  (m.transitionFor v).bind fun t => s.exchange? t.pop t.push

/-- Makes the pops and pushes of recorded moves again, from the empty stack. -/
def stackAfter (moves : List Move) : Option (Stack K) := moves.foldlM m.restack .empty

variable {m}

/-- The transition of a move is found by the name of the state and the position. -/
theorem transitionFor_eq_some {v : Move} {i : Fin m.count} {t : Transition C K (Fin m.count)}
    (hi : v.source = m.stateName i) (ht : (m.state i).transitions[v.index]? = some t) :
    m.transitionFor v = some t := by
  rw [transitionFor, find?_eq_some_iff.2 hi.symm]
  exact ht

/-- The effect of the latest move comes after those of the others. -/
theorem stackAfter_concat (moves : List Move) (v : Move) :
    m.stackAfter (moves ++ [v]) = (m.stackAfter moves).bind fun s => m.restack s v := by
  simp [stackAfter, List.foldlM_append]

end Machine

namespace Configuration

variable {m : Machine C K} {g : Configuration m}

/-- The stack is as high as the first `n` moves of the path make it. -/
def Level (g : Configuration m) (n : Nat) : Prop :=
  ∃ s, m.stackAfter (g.path.moves.toList.take n) = some s ∧ s.size = g.stack.size

/-- The stack is as high as the path makes it. -/
def Leveled (g : Configuration m) : Prop := g.Level g.path.length

/-- The stack is as high as the path makes it just if all moves of the path can be made again and
lead to a stack of this height. -/
theorem leveled_iff :
    g.Leveled ↔ ∃ s, m.stackAfter g.path.moves.toList = some s ∧ s.size = g.stack.size := by
  have htake : g.path.moves.toList.take g.path.length = g.path.moves.toList :=
    List.take_of_length_le (by simp [Path.length])
  rw [Leveled, Level, htake]

/-- **Firing keeps the stack as high as the path makes it.** -/
theorem Leveled.fire [BEq K] (h : g.Leveled) {i : Fin g.transitions.length} (hi : g.eligible i) :
    (g.fire i).Leveled := by
  obtain ⟨s, hs, hsize⟩ := leveled_iff.1 h
  obtain ⟨hadmits, -⟩ := Bool.and_eq_true_iff.1 hi
  have hmoves : (g.fire i).path.moves.toList = g.path.moves.toList ++ [g.move i] :=
    Array.toList_push
  have ht : m.transitionFor (g.move i) = some (g.transition i) :=
    Machine.transitionFor_eq_some rfl (List.getElem?_eq_getElem i.isLt)
  have hpop : (g.transition i).pop.toList.length ≤ s.size := by
    rw [hsize]
    exact Stack.length_toList_le_of_admits hadmits
  refine leveled_iff.2 ⟨s.apply (g.transition i).pop (g.transition i).push, ?_, ?_⟩
  · rw [hmoves, Machine.stackAfter_concat, hs, Option.bind_some, Machine.restack, ht]
    exact Stack.exchange?_eq_some_iff.2 ⟨hpop, rfl⟩
  · rw [stack_fire, Stack.size_apply, Stack.size_apply, hsize]

/-- The last of some moves that led to the level can be taken back. -/
theorem Level.of_succ {n : Nat} {v : Move} {t : Transition C K (Fin m.count)}
    (h : g.Level (n + 1)) (hv : g.path.moves[n]? = some v) (ht : m.transitionFor v = some t) :
    ∃ s, m.stackAfter (g.path.moves.toList.take n) = some s ∧
      t.pop.toList.length ≤ s.size ∧
      g.stack.size = s.size - t.pop.toList.length + t.push.toList.length := by
  obtain ⟨s', hs', hsize⟩ := h
  have htake : g.path.moves.toList.take (n + 1) = g.path.moves.toList.take n ++ [v] := by
    rw [← Array.getElem?_toList] at hv
    rw [List.take_add_one, hv]
    rfl
  rw [htake, Machine.stackAfter_concat] at hs'
  obtain ⟨s, hs, hrestack⟩ := Option.bind_eq_some_iff.1 hs'
  rw [Machine.restack, ht, Option.bind_some] at hrestack
  obtain ⟨hpop, rfl⟩ := Stack.exchange?_eq_some_iff.1 hrestack
  rw [Stack.size_apply] at hsize
  exact ⟨s, hs, hpop, hsize.symm⟩

/-- Path and stack are what matters. -/
theorem Leveled.of_place (h : g.Leveled) {e : Configuration m} (hplace : e.place = g.place) :
    e.Leveled := by
  obtain ⟨s, hs, hsize⟩ := h
  have hpath : e.path = g.path := congrArg Place.path hplace
  have hstack : e.stack = g.stack := congrArg Place.stack hplace
  rw [Leveled, Level, hpath, hstack]
  exact ⟨s, hs, hsize⟩

/-- Cutting the path to the moves that made the level. -/
theorem Level.leveled_cut {n : Nat} (h : g.Level n) : (g.cut n).Leveled := by
  obtain ⟨s, hs, hsize⟩ := h
  have hmoves : (g.cut n).path.moves.toList = g.path.moves.toList.take n := by
    simp [cut, Path.truncate, Array.shrink_eq_take]
  exact leveled_iff.2 ⟨s, hmoves ▸ hs, hsize⟩

section Turn

variable [Input C] [BEq K]

/-- At the head of every turn, a direct run has a stack as high as its path makes it. -/
theorem leveled_of_after {limits : Limits} {c : C} {n : Nat}
    (h : Loop.after (step limits) n (start m c) = some g) : g.Leveled := by
  refine Loop.after_induction (P := fun _ g => g.Leveled) ⟨.empty, rfl, rfl⟩ ?_ h
  rintro n g g' - hg hs
  obtain ⟨e, i, ht, -, rfl⟩ := exists_choice_of_step hs
  obtain ⟨rfl, hi⟩ := of_turn_eq_choice ht
  have hi : g.enter.1.eligible i := (select_eq_some_iff.1 hi).2.1
  exact (hg.of_place (place_enter g)).fire hi

end Turn
end Configuration

/-- The transition for whose move a choice was noted. -/
theorem Choice.NotedFor.exists_transition {m : Machine C K} {c : Choice (Fin m.count) M K}
    {p : Path} (h : c.NotedFor p) :
    ∃ v t, p.moves[c.depth]? = some v ∧ m.transitionFor v = some t ∧
      c.popped = t.pop ∧ c.pushed = t.push.isSome := by
  obtain ⟨v, t, hv, hsource, hindex, ht, -, hpopped, hpushed⟩ := h
  exact ⟨v, t, hv, Machine.transitionFor_eq_some hsource (hindex ▸ ht), hpopped, hpushed⟩

namespace Search

variable [Rewind C M] {m : Machine C K} {g : Configuration m}

/-- **Going back past a choice leads to the level before its move.** If the choice says that a symbol
was pushed, there is one to drop. -/
theorem level_restore {c : Choice (Fin m.count) M K} (h : g.Level (c.depth + 1))
    (hc : c.NotedFor g.path) :
    (restore g c).Level c.depth ∧ (c.pushed = true → 0 < g.stack.size) := by
  obtain ⟨v, t, hv, ht, hpopped, hpushed⟩ := hc.exists_transition
  obtain ⟨s, hs, hpop, hsize⟩ := h.of_succ hv ht
  have hpush : t.push.toList.length = c.pushed.toNat := by
    rw [hpushed]
    cases t.push <;> rfl
  have hrestored : (restore g c).stack.size =
      g.stack.size - c.pushed.toNat + t.pop.toList.length := by
    rw [← hpopped]
    exact Stack.size_undo _ _ _
  refine ⟨⟨s, hs, ?_⟩, fun hp => ?_⟩
  · omega
  · rw [hp] at hpush
    simp only [Bool.toNat_true] at hpush
    omega

/-- **Going back past choices leads to the level before the earliest of their moves.** -/
theorem level_unwind {n : Nat} {choices : List (Choice (Fin m.count) M K)} (h : g.Level n)
    (hc : ∀ j c, choices[j]? = some c → c.depth + j + 1 = n ∧ c.NotedFor g.path) :
    (unwind g choices).Level (n - choices.length) := by
  induction choices generalizing g n with
  | nil => exact h
  | cons c choices ih =>
    obtain ⟨hdepth, hnoted⟩ := hc 0 c rfl
    have hn : n = c.depth + 1 := by omega
    subst hn
    have hrest : (unwind (restore g c) choices).Level (c.depth - choices.length) := by
      refine ih (level_restore h hnoted).1 fun j d hd => ?_
      obtain ⟨hdepth', hnoted'⟩ := hc (j + 1) d hd
      exact ⟨by omega, hnoted'⟩
    rw [List.length_cons, Nat.add_sub_add_right]
    exact hrest

variable [Input C] [BEq K] {s : Search m M}

/-- **Where a turn comes to a firing, the stack is as high as the path makes it,** and the transition
is eligible. -/
theorem leveled_of_next (h : s.config.Leveled) (haligned : s.trail.Aligned s.config.path)
    {f : Firing m} {trail : Trail (Fin m.count) M K} {backtracks : Nat}
    (hf : s.next = .fires f trail backtracks) :
    f.config.Leveled ∧ f.config.eligible f.index := by
  rcases of_next_eq_fires hf with ⟨ht, -⟩ | ⟨g, reason, past, c, rest, ht, hl, -, -, hconfig, hi⟩
  · obtain ⟨he, hi⟩ := Configuration.of_turn_eq_choice ht
    have hplace : f.config.place = s.config.place := by rw [he, Configuration.place_enter]
    exact ⟨h.of_place hplace, (Configuration.select_eq_some_iff.1 hi).2.1⟩
  · refine ⟨?_, hi⟩
    have hplace := Configuration.place_of_turn_eq_settled ht
    have hpath : g.path = s.config.path := congrArg Place.path hplace
    -- The choices gone back past belong to the last moves of the path, the latest first.
    have hnoted : ∀ j d, (past ++ [c])[j]? = some d →
        d.depth + j + 1 = g.path.length ∧ d.NotedFor g.path := by
      intro j d hd
      obtain ⟨hj, -⟩ := List.getElem?_eq_some_iff.1 hd
      rw [hpath]
      refine haligned.choice j d ?_
      rw [hl, List.append_cons, List.getElem?_append_left hj, hd]
    have hlevel := level_unwind (h.of_place hplace) hnoted
    obtain ⟨hdepth, -⟩ := hnoted past.length c (by simp)
    have hlength : g.path.length - (past ++ [c]).length = c.depth := by
      rw [List.length_append, List.length_singleton]
      omega
    rw [hlength] at hlevel
    rw [hconfig]
    exact hlevel.leveled_cut

/-- **At the head of every turn, a search has a stack as high as its path makes it.** -/
theorem leveled_of_after {limits : Limits} {c : C} {n : Nat}
    (h : Loop.after (step limits) n (start m M limits c) = some s) : s.config.Leveled := by
  refine Loop.after_induction (P := fun _ s => s.config.Leveled) ⟨.empty, rfl, rfl⟩ ?_ h
  rintro n t t' ht hleveled hs
  obtain ⟨f, trail, b, hf, rfl⟩ := exists_fires_of_step hs
  obtain ⟨hf, hi⟩ := leveled_of_next hleveled (aligned_of_after ht) hf
  exact hf.fire hi

end Search
end StateMachine
