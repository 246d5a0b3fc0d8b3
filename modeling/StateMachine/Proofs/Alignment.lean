/-
# Trail and path stay aligned

Every firing adds one move to the path and one choice to the trail, and whoever goes back takes as
many moves off the path as choices off the trail. So at the head of every turn the choices on the
trail belong to the latest moves of the path, each to the one at the depth that it has noted, and
what the path has more are the choices that were forgotten (`trail_aligned_of_after`).

The stack does not matter for this, and neither does the equality of symbols: a choice names the
transition by its position.
-/

import StateMachine.Proofs.Firing
import StateMachine.Proofs.Loop
import StateMachine.Puzzle.Palindrome

namespace StateMachine

universe u v w

variable {C : Type u} {K : Type v} {M : Type w} {m : Machine C K}

/-- The choice was noted for the move of the path at its depth: it names the state which this move
leaves and the position of the transition, and tells what the transition does to the stack. -/
def Choice.NotedFor (c : Choice (Fin m.count) M K) (p : Path) : Prop :=
  ∃ (v : Move) (t : Transition C K (Fin m.count)), p.moves[c.depth]? = some v ∧
    v.source = m.stateName c.state ∧ v.index = c.taken ∧
    (m.state c.state).transitions[c.taken]? = some t ∧ v.target = m.stateName t.target ∧
    c.popped = t.pop ∧ c.pushed = t.push.isSome

/-- Only the move at its depth matters to a choice. -/
theorem Choice.NotedFor.of_eq {c : Choice (Fin m.count) M K} {p q : Path} (h : c.NotedFor p)
    (hq : q.moves[c.depth]? = p.moves[c.depth]?) : c.NotedFor q := by
  obtain ⟨v, t, hv, hrest⟩ := h
  exact ⟨v, t, hq.trans hv, hrest⟩

/-- The choice of a firing is noted for the move that it makes. -/
theorem Firing.notedFor_choice [Rewind C M] (f : Firing m) :
    (f.choice (M := M)).NotedFor (f.config.fire f.index).path :=
  ⟨f.config.move f.index, f.config.transition f.index, Path.moves_push_length _ _, rfl, rfl,
    List.getElem?_eq_getElem f.index.isLt, rfl, rfl, rfl⟩

/-- The choices on the trail were noted for the latest moves of the path, and those for the moves
before are forgotten. -/
structure Trail.Aligned (t : Trail (Fin m.count) M K) (p : Path) : Prop where
  length : p.length = t.length + t.discarded
  choice : ∀ j c, t.choices[j]? = some c → c.depth + j + 1 = p.length ∧ c.NotedFor p

namespace Trail.Aligned

variable {t : Trail (Fin m.count) M K} {p : Path}

/-- An empty trail is aligned with a path without moves, whatever its limit. -/
theorem empty (limit : Option Nat) (start : String) :
    (Trail.empty limit : Trail (Fin m.count) M K).Aligned (.nil start) :=
  ⟨rfl, nofun⟩

/-- **Firing keeps trail and path aligned,** also when the oldest choice is forgotten. -/
theorem fire [Rewind C M] {f : Firing m} (h : t.Aligned f.config.path) :
    (t.push f.choice).Aligned (f.config.fire f.index).path := by
  have hlength : (f.config.fire f.index).path.length = f.config.path.length + 1 :=
    Path.length_push _ _
  refine ⟨?_, fun j c hc => ?_⟩
  · have hpush := t.discarded_add_length_push f.choice
    have hp := h.length
    omega
  · obtain ⟨hj, rfl⟩ := List.getElem?_eq_some_iff.1 hc
    have hcons := List.prefix_iff_getElem?.1 (t.choices_push_prefix f.choice) j hj
    cases j with
    | zero =>
      rw [← Option.some.inj hcons]
      exact ⟨hlength.symm, f.notedFor_choice⟩
    | succ j =>
      obtain ⟨hdepth, hnoted⟩ := h.choice j _ hcons
      refine ⟨by omega, hnoted.of_eq (Path.moves_push_of_lt f.config.path _ ?_)⟩
      omega

/-- **Going back past a choice keeps trail and path aligned,** once the path is cut. -/
theorem cut (h : t.Aligned p) {past rest : List (Choice (Fin m.count) M K)}
    {c : Choice (Fin m.count) M K} (ht : t.choices = past ++ c :: rest) :
    ({ t with choices := rest } : Trail (Fin m.count) M K).Aligned (p.truncate c.depth) := by
  have hlength : t.length = past.length + (rest.length + 1) := by
    rw [Trail.length, ht, List.length_append, List.length_cons]
  have hc : t.choices[past.length]? = some c := by
    rw [ht]
    simp
  obtain ⟨hdepth, -⟩ := h.choice _ _ hc
  have hp := h.length
  have hcut : (p.truncate c.depth).length = c.depth := by
    rw [Path.length_truncate]
    omega
  refine ⟨?_, fun j d hd => ?_⟩
  · rw [hcut]
    change c.depth = rest.length + t.discarded
    omega
  · have hd' : t.choices[past.length + (j + 1)]? = some d := by
      rw [ht, List.getElem?_append_right (Nat.le_add_right _ _), Nat.add_sub_cancel_left]
      exact hd
    obtain ⟨hdepth', hnoted⟩ := h.choice _ _ hd'
    refine ⟨by omega, hnoted.of_eq (Path.moves_truncate_of_lt _ ?_)⟩
    omega

/-- Counted from the oldest, the choice on the trail at position `i` was noted when the path had `i`
moves more than choices are forgotten. -/
theorem of_oldest (h : t.Aligned p) {i : Nat} {c : Choice (Fin m.count) M K}
    (hc : t.choices.reverse[i]? = some c) : c.depth = t.discarded + i ∧ c.NotedFor p := by
  obtain ⟨hi, -⟩ := List.getElem?_eq_some_iff.1 hc
  rw [List.length_reverse] at hi
  rw [List.getElem?_reverse hi] at hc
  obtain ⟨hdepth, hnoted⟩ := h.choice _ _ hc
  have hp := h.length
  have hlength : t.length = t.choices.length := rfl
  exact ⟨by omega, hnoted⟩

end Trail.Aligned

/-- At the head of every turn of a direct run, the path ends in the current state. -/
theorem Configuration.last_path_of_after [Input C] [BEq K] {limits : Limits} {c : C} {n : Nat}
    {g : Configuration m} (h : Loop.after (step limits) n (start m c) = some g) :
    g.path.last = g.stateName := by
  refine Loop.after_induction (P := fun _ g => g.path.last = g.stateName) rfl ?_ h
  rintro n g g' - - hs
  obtain ⟨e, i, -, -, rfl⟩ := exists_choice_of_step hs
  exact last_path_fire e i

namespace Search

variable [Rewind C M]

variable [Input C] [BEq K] {s : Search m M} {f : Firing m} {trail : Trail (Fin m.count) M K}
  {backtracks : Nat}

/-- What a turn that comes to a firing has done to trail and path: nothing, or it has taken off the
trail a choice and all later ones, and has cut the path to the depth that was noted there. -/
theorem trail_path_of_next (h : s.next = .fires f trail backtracks) :
    trail = s.trail ∧ f.config.path = s.config.path ∨
      ∃ past c rest, s.trail.choices = past ++ c :: rest ∧
        trail = { s.trail with choices := rest } ∧
        f.config.path = s.config.path.truncate c.depth := by
  rcases of_next_eq_fires h with
    ⟨ht, rfl, -⟩ | ⟨g, reason, past, c, rest, ht, hl, rfl, -, hconfig, -⟩
  · refine .inl ⟨rfl, ?_⟩
    rw [(Configuration.of_turn_eq_choice ht).1]
    rfl
  · refine .inr ⟨past, c, rest, hl, rfl, ?_⟩
    have hpath : g.path = s.config.path := by
      rcases Configuration.of_turn_eq_settled ht with rfl | rfl <;> rfl
    rw [hconfig, ← hpath, ← path_unwind g (past ++ [c])]
    rfl

variable {limits : Limits} {c : C} {n : Nat}

/-- At the head of every turn of a search, the path ends in the current state. -/
theorem last_path_of_after (h : Loop.after (step limits) n (start m M limits c) = some s) :
    s.config.path.last = s.config.stateName := by
  refine Loop.after_induction (P := fun _ s => s.config.path.last = s.config.stateName) rfl ?_ h
  rintro n t t' - - hs
  obtain ⟨f, trail, b, -, rfl⟩ := exists_fires_of_step hs
  exact Configuration.last_path_fire f.config f.index

/-- At the head of every turn, the trail has the limit of the search and is within it. -/
theorem trail_limit_of_after (h : Loop.after (step limits) n (start m M limits c) = some s) :
    s.trail.limit = limits.trail ∧ ∀ k, limits.trail = some k → s.trail.length ≤ k := by
  refine Loop.after_induction (P := fun _ s => s.trail.limit = limits.trail ∧
    ∀ k, limits.trail = some k → s.trail.length ≤ k) ⟨rfl, fun k _ => Nat.zero_le k⟩ ?_ h
  rintro n t t' - ⟨hlimit, -⟩ hs
  obtain ⟨f, trail, b, hf, rfl⟩ := exists_fires_of_step hs
  have htrail : trail.limit = limits.trail := by
    rcases trail_path_of_next hf with ⟨rfl, -⟩ | ⟨past, c, rest, -, rfl, -⟩ <;> exact hlimit
  refine ⟨(Trail.limit_push _ _).trans htrail, fun k hk => ?_⟩
  exact Trail.length_push_le (htrail.trans hk) _

/-- **At the head of every turn, trail and path are aligned.** -/
theorem aligned_of_after (h : Loop.after (step limits) n (start m M limits c) = some s) :
    s.trail.Aligned s.config.path := by
  refine Loop.after_induction (P := fun _ s => s.trail.Aligned s.config.path)
    (.empty limits.trail _) ?_ h
  rintro n t t' - ht hs
  obtain ⟨f, trail, b, hf, rfl⟩ := exists_fires_of_step hs
  refine Trail.Aligned.fire ?_
  rcases trail_path_of_next hf with ⟨rfl, hpath⟩ | ⟨past, c, rest, hl, rfl, hpath⟩
  · rw [hpath]
    exact ht
  · rw [hpath]
    exact ht.cut hl

end Search

/-- **Trail and path stay aligned.** At the head of every turn of a search, under any limits, there
is a choice on the trail or forgotten for each move of the path. The trail is within its limit.
Counted from the oldest, the choice at position `i` has noted as its depth the number of forgotten
choices and `i`, and was noted for the move there: for the state that it leaves, for the transition
at its position, and for what that transition pops and whether it pushes. -/
theorem trail_aligned_of_after [Input C] [Rewind C M] [BEq K] {limits : Limits} {c : C} {n : Nat}
    {s : Search m M}
    (h : Loop.after (Search.step limits) n (Search.start m M limits c) = some s) :
    s.config.path.length = s.trail.length + s.trail.discarded ∧
      (∀ k, limits.trail = some k → s.trail.length ≤ k) ∧
      ∀ i d, s.trail.choices.reverse[i]? = some d →
        d.depth = s.trail.discarded + i ∧ d.NotedFor s.config.path := by
  have haligned := Search.aligned_of_after h
  exact ⟨haligned.length, (Search.trail_limit_of_after h).2, fun i d hd => haligned.of_oldest hd⟩

/-- A search on `aa` that remembers three choices has forgotten two when it returns for the first
time; after another move there are two choices on the trail for four moves. -/
theorem palindrome_trail_aligned :
    ∃ s : Search Palindrome.machine Nat,
      Loop.after (Search.step ⟨none, some 3⟩) 7
        (Search.start Palindrome.machine Nat ⟨none, some 3⟩ (Tape.ofString "aa")) = some s ∧
      s.backtracks = 1 ∧ s.trail.discarded = 2 ∧
      s.config.path.length = s.trail.length + s.trail.discarded ∧ s.trail.length ≤ 3 ∧
      ∀ i d, s.trail.choices.reverse[i]? = some d →
        d.depth = s.trail.discarded + i ∧ d.NotedFor s.config.path := by
  have hrun : ∃ s : Search Palindrome.machine Nat,
      Loop.after (Search.step ⟨none, some 3⟩) 7
        (Search.start Palindrome.machine Nat ⟨none, some 3⟩ (Tape.ofString "aa")) = some s ∧
      s.backtracks = 1 ∧ s.trail.discarded = 2 := ⟨_, rfl, rfl, rfl⟩
  obtain ⟨s, hs, hbacktracks, hdiscarded⟩ := hrun
  obtain ⟨hlength, hlimit, hchoices⟩ := trail_aligned_of_after hs
  exact ⟨s, hs, hbacktracks, hdiscarded, hlength, hlimit 3 rfl, hchoices⟩

end StateMachine
