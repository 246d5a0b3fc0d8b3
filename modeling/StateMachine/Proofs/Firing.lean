/-
# The next firing

A turn of a search comes to a transition, after going back past some of its choices or none, and
then fires it if the limit on steps allows. `Search.next` is the first part of this, in which no
limit is involved; `step_eq_carryOut` says that nothing is lost. So what a turn that goes on has
done can be read off its `Firing` (`exists_fires_of_step`).
-/

import StateMachine.Proofs.Turn

namespace StateMachine

universe u v w

variable {C : Type u} {K : Type v} {M : Type w}

/-- A transition that is about to be fired, and the configuration in which it is. -/
structure Firing (m : Machine C K) where
  config : Configuration m
  index : Fin config.transitions.length

/-- The note that a search makes on a firing. -/
def Firing.choice [Rewind C M] {m : Machine C K} (f : Firing m) : Choice (Fin m.count) M K :=
  Search.choiceOf f.config f.index

/-- The configuration with its path cut back to a length. -/
def Configuration.cut {m : Machine C K} (g : Configuration m) (n : Nat) : Configuration m :=
  { g with path := g.path.truncate n }

namespace Search

/-- What a turn of a search comes to, before the limit on steps is asked. -/
inductive Next (m : Machine C K) (M : Type w) where
  /-- The search is over, with a report. -/
  | ends (r : Report C)
  /-- A transition is to be fired, with what is left on the trail and the number of backtracks. -/
  | fires (f : Firing m) (trail : Trail (Fin m.count) M K) (backtracks : Nat)

section Next

variable [Rewind C M] {m : Machine C K}

/-- The configuration after going back past the given choices, in their order. -/
def unwind (g : Configuration m) (choices : List (Choice (Fin m.count) M K)) : Configuration m :=
  choices.foldl restore g

/-- Going back past the choices of two lists is going back past those of the one and then past those
of the other. -/
theorem unwind_append (g : Configuration m) (a b : List (Choice (Fin m.count) M K)) :
    unwind g (a ++ b) = unwind (unwind g a) b :=
  List.foldl_append

/-- Going back puts back context, stack and state. The path, the count of transitions and what was
told stay. -/
theorem unwind_keeps (g : Configuration m) (choices : List (Choice (Fin m.count) M K)) :
    (unwind g choices).path = g.path ∧ (unwind g choices).steps = g.steps ∧
      (unwind g choices).notices = g.notices := by
  induction choices generalizing g with
  | nil => exact ⟨rfl, rfl, rfl⟩
  | cons c choices ih => exact ih (restore g c)

/-- Going back leaves the path as it is. -/
theorem path_unwind (g : Configuration m) (choices : List (Choice (Fin m.count) M K)) :
    (unwind g choices).path = g.path :=
  (unwind_keeps g choices).1

/-- Going back leaves the count of fired transitions as it is. -/
theorem steps_unwind (g : Configuration m) (choices : List (Choice (Fin m.count) M K)) :
    (unwind g choices).steps = g.steps :=
  (unwind_keeps g choices).2.1

/-- Going back tells nothing. -/
theorem notices_unwind (g : Configuration m) (choices : List (Choice (Fin m.count) M K)) :
    (unwind g choices).notices = g.notices :=
  (unwind_keeps g choices).2.2

/-- The configuration in which a search takes a choice up again that it has gone back to. -/
def returned (g : Configuration m) (c : Choice (Fin m.count) M K) : Configuration m :=
  (g.cut c.depth).notify (.returned g.stateName)

variable [BEq K]

/-- What returning after a rejection comes to. -/
def nextAmong (reason : String) (trail : Trail (Fin m.count) M K) (backtracks : Nat) :
    List (Choice (Fin m.count) M K) → Configuration m → Next m M
  | [], g => .ends (exhausted g reason backtracks)
  | c :: rest, g =>
    match (restore g c).select (c.taken + 1) with
    | none => nextAmong reason trail backtracks rest (restore g c)
    | some i =>
      .fires ⟨returned (restore g c) c, i⟩ { trail with choices := rest } (backtracks + 1)

/-- What a turn comes to. -/
def next [Input C] (s : Search m M) : Next m M :=
  match s.config.turn with
  | .settled g .accepted => .ends (g.finish .accepted s.backtracks)
  | .settled g (.rejected reason) =>
    nextAmong reason s.trail s.backtracks s.trail.choices g
  | .choice g i => .fires ⟨g, i⟩ s.trail s.backtracks

/-- Fires the transition that a turn has come to, if the limit allows it. -/
def Next.carryOut (limits : Limits) : Next m M → Progress (Search m M) (Report C)
  | .ends r => .finish r
  | .fires f trail backtracks => fire limits f.config f.index trail backtracks

/-- Returning after a rejection carries out what returning comes to. -/
theorem resume_eq_carryOut (limits : Limits) (reason : String) (trail : Trail (Fin m.count) M K)
    (backtracks : Nat) (l : List (Choice (Fin m.count) M K)) (g : Configuration m) :
    resume limits reason trail backtracks l g =
      (nextAmong reason trail backtracks l g).carryOut limits := by
  induction l generalizing g with
  | nil => rfl
  | cons c rest ih =>
    rw [resume, nextAmong]
    cases (restore g c).select (c.taken + 1) with
    | none => exact ih (restore g c)
    | some i => rfl

/-- **A turn of a search is its next firing**, carried out if the limit allows it. -/
theorem step_eq_carryOut [Input C] (limits : Limits) (s : Search m M) :
    step limits s = s.next.carryOut limits := by
  rw [step, next]
  cases s.config.turn with
  | choice g i => rfl
  | settled g o =>
    cases o with
    | accepted => rfl
    | rejected reason => exact resume_eq_carryOut limits reason _ _ _ g

/-- A turn that goes on has fired. -/
theorem exists_fires_of_step [Input C] {limits : Limits} {s s' : Search m M}
    (h : step limits s = .continue s') :
    ∃ f trail backtracks, s.next = .fires f trail backtracks ∧
      s' = ⟨f.config.fire f.index, trail.push f.choice, backtracks⟩ := by
  rw [step_eq_carryOut] at h
  cases hn : s.next with
  | ends r => rw [hn] at h; cases h
  | fires f trail backtracks =>
    rw [hn, Next.carryOut, fire] at h
    split at h
    · cases h
    · cases h
      exact ⟨f, trail, backtracks, rfl, rfl⟩

/-- A firing on return is made after going back past some choices, the last of which is taken up
again; those that come after it are left on the trail. -/
theorem of_nextAmong_eq_fires {reason : String} {trail trail' : Trail (Fin m.count) M K}
    {backtracks backtracks' : Nat} {l : List (Choice (Fin m.count) M K)} {g : Configuration m}
    {f : Firing m} (h : nextAmong reason trail backtracks l g = .fires f trail' backtracks') :
    ∃ past c rest, l = past ++ c :: rest ∧ trail' = { trail with choices := rest } ∧
      backtracks' = backtracks + 1 ∧ f.config = returned (unwind g (past ++ [c])) c ∧
      f.config.eligible f.index := by
  induction l generalizing g with
  | nil => cases h
  | cons c rest ih =>
    rw [nextAmong] at h
    split at h
    · obtain ⟨past, c', rest', rfl, htrail, hbacktracks, hf⟩ := ih h
      exact ⟨c :: past, c', rest', rfl, htrail, hbacktracks, hf⟩
    · rename_i i hi
      cases h
      exact ⟨[], c, rest, rfl, rfl, rfl, rfl, (Configuration.select_eq_some_iff.1 hi).2.1⟩

/-- The choice has no untried eligible transition, once one has gone back to it. -/
def Spent (g : Configuration m) (c : Choice (Fin m.count) M K) : Prop :=
  g.select (c.taken + 1) = none

/-- A search that ends on return has gone back past all choices, and none of them has an untried
eligible transition. -/
theorem of_nextAmong_eq_ends {reason : String} {trail : Trail (Fin m.count) M K}
    {backtracks : Nat} {l : List (Choice (Fin m.count) M K)} {g : Configuration m} {r : Report C}
    (h : nextAmong reason trail backtracks l g = .ends r) :
    r = exhausted (unwind g l) reason backtracks ∧
      ∀ past c rest, l = past ++ c :: rest → Spent (unwind g (past ++ [c])) c := by
  induction l generalizing g with
  | nil =>
    cases h
    exact ⟨rfl, fun past c rest hl => by simp at hl⟩
  | cons d l ih =>
    rw [nextAmong] at h
    split at h
    · rename_i hnone
      obtain ⟨hr, hspent⟩ := ih h
      refine ⟨hr, fun past c rest hl => ?_⟩
      cases past with
      | nil =>
        cases hl
        exact hnone
      | cons e past =>
        cases hl
        exact hspent past c rest rfl
    · cases h

/-- Returning comes to such an end if no choice has an untried eligible transition. -/
theorem nextAmong_of_spent {reason : String} {trail : Trail (Fin m.count) M K} {backtracks : Nat}
    {l : List (Choice (Fin m.count) M K)} {g : Configuration m}
    (h : ∀ past c rest, l = past ++ c :: rest → Spent (unwind g (past ++ [c])) c) :
    nextAmong reason trail backtracks l g =
      .ends (exhausted (unwind g l) reason backtracks) := by
  induction l generalizing g with
  | nil => rfl
  | cons d l ih =>
    have hd : (restore g d).select (d.taken + 1) = none := h [] d l rfl
    have hl : nextAmong reason trail backtracks l (restore g d) =
        .ends (exhausted (unwind (restore g d) l) reason backtracks) := by
      refine ih fun past c rest hrest => ?_
      exact h (d :: past) c rest (by rw [hrest, List.cons_append])
    rw [nextAmong, hd]
    exact hl

section Turn

variable [Input C] {s : Search m M} {f : Firing m} {trail : Trail (Fin m.count) M K}
  {backtracks : Nat}

/-- **What a turn has done that comes to a firing.** Its transition is the first one eligible after
the action, or the outcome was a rejection, and the search has gone back past some of its choices
and takes up the last of them again. -/
theorem of_next_eq_fires (h : s.next = .fires f trail backtracks) :
    (s.config.turn = .choice f.config f.index ∧ trail = s.trail ∧ backtracks = s.backtracks) ∨
      ∃ g reason past c rest, s.config.turn = .settled g (.rejected reason) ∧
        s.trail.choices = past ++ c :: rest ∧ trail = { s.trail with choices := rest } ∧
        backtracks = s.backtracks + 1 ∧ f.config = returned (unwind g (past ++ [c])) c ∧
        f.config.eligible f.index := by
  unfold next at h
  split at h
  · cases h
  · rename_i g reason ht
    obtain ⟨past, c, rest, hl, htrail, hbacktracks, hf, hi⟩ := of_nextAmong_eq_fires h
    exact .inr ⟨g, reason, past, c, rest, ht, hl, htrail, hbacktracks, hf, hi⟩
  · rename_i g i ht
    cases h
    exact .inl ⟨ht, rfl, rfl⟩

/-- **What a turn has done that ends the search** before any limit is asked. It has accepted, or the
outcome was a rejection and no choice on the trail could be taken up again. -/
theorem of_next_eq_ends {r : Report C} (h : s.next = .ends r) :
    (∃ g, s.config.turn = .settled g .accepted ∧ r = g.finish .accepted s.backtracks) ∨
      ∃ g reason, s.config.turn = .settled g (.rejected reason) ∧
        r = exhausted (unwind g s.trail.choices) reason s.backtracks ∧
        ∀ past c rest, s.trail.choices = past ++ c :: rest →
          Spent (unwind g (past ++ [c])) c := by
  unfold next at h
  split at h
  · rename_i g ht
    cases h
    exact .inl ⟨g, ht, rfl⟩
  · rename_i g reason ht
    exact .inr ⟨g, reason, ht, of_nextAmong_eq_ends h⟩
  · cases h

/-- A turn that ends the search has come to an end by itself, or the limit does not allow the
transition that it has come to. -/
theorem of_step_eq_finish {limits : Limits} {r : Report C} (h : step limits s = .finish r) :
    s.next = .ends r ∨
      ∃ f trail backtracks o, s.next = .fires f trail backtracks ∧
        limits.exceeded f.config.steps = some o ∧ r = f.config.finish o backtracks := by
  rw [step_eq_carryOut] at h
  cases hn : s.next with
  | ends r' =>
    rw [hn] at h
    cases h
    exact .inl rfl
  | fires f trail backtracks =>
    rw [hn, Next.carryOut, fire] at h
    split at h
    · rename_i o ho
      cases h
      exact .inr ⟨f, trail, backtracks, o, rfl, ho, rfl⟩
    · cases h

end Turn
end Next
end Search
end StateMachine
