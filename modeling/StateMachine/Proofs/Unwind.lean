/-
# A choice brings back what it was noted for

At whatever moment of a search one goes back past the latest choices on the trail, one arrives at
the configuration in which the last of them was noted: its state, its context, its stack and, once
the path is cut, its path (`unwind_of_moment`). The choice itself holds no stack and no context; the
stack comes back because every later choice undoes its own transition (`Stands.unwind`), the
context because every later mark has been taken on something derived from it (`Derived.unwind`).

The configuration one arrives at is the one that was there in the turn of the search that fired
the transition, for good so far: nothing on its way has been taken back since (`Live`).
-/

import StateMachine.Proofs.Line
import StateMachine.Proofs.Rewind

namespace StateMachine

universe u v w

variable {C : Type u} {K : Type v} {M : Type w}

namespace Configuration

variable [Input C] {m : Machine C K} {g e : Configuration m}

/-- Entering the state derives a context from that before, and so does a decision that follows. -/
theorem derives_of_entered (h : e = g.enter.1 ∨ e = g.enter.1.decide.1) :
    m.Derives g.context e.context := by
  have henter : m.Derives g.context g.enter.1.context := .action g.state g.stack (.refl _)
  rcases h with rfl | rfl
  · exact henter
  · exact .decision _ _ henter

end Configuration

namespace Search

variable [Input C] {m : Machine C K}

section Derived

variable {l : List (Firing m)} {f : Firing m} {c d : C}

/-- Each of the firings, the latest first, was made in a context that is derived from that of the
firing before, and the given context is derived from that of the latest. -/
def Derived : List (Firing m) → C → Prop
  | [], _ => True
  | f :: l, c => m.Derives f.config.context c ∧ Derived l f.config.context

/-- Contexts derived further are still derived. -/
theorem Derived.trans (h : Derived l c) (hd : m.Derives c d) : Derived l d := by
  cases l with
  | nil => trivial
  | cons f l => exact ⟨h.1.trans hd, h.2⟩

variable [Rewind C M] (hm : m.Rewinds) {g : Configuration m}

include hm

/-- Going back past the latest choice leads to the context in which it was noted. -/
theorem Derived.context_restore (h : Derived (f :: l) g.context) :
    (restore g (f.choice (M := M))).context = f.config.context :=
  hm _ _ h.1

/-- Going back past any number of choices leads to a context in which the next one can be undone. -/
theorem Derived.unwind {past : List (Firing m)} (h : Derived (past ++ l) g.context) :
    Derived l (unwind g (past.map (Firing.choice (M := M)))).context := by
  induction past generalizing g with
  | nil => exact h
  | cons f past ih =>
    refine ih (g := restore g (f.choice (M := M))) ?_
    rw [Derived.context_restore hm h]
    exact h.2

end Derived

variable [Rewind C M] [BEq K]

section Live

/-- In turn `j`, counted from zero, the search comes to fire `f`. -/
def FiresIn (M : Type w) [Rewind C M] (limits : Limits) (c : C) (j : Nat) (f : Firing m) : Prop :=
  ∃ (s : Search m M) (trail : Trail (Fin m.count) M K) (backtracks : Nat),
    Loop.after (step limits) j (start m M limits c) = some s ∧ s.next = .fires f trail backtracks

/-- At the head of turn `n`, the firing `f` is on the live path: the search fired it in an earlier
turn, and all that it has fired since was further down. -/
def Live (M : Type w) [Rewind C M] (limits : Limits) (c : C) (n : Nat) (f : Firing m) : Prop :=
  ∃ j < n, FiresIn M limits c j f ∧
    ∀ j' (f' : Firing m), j < j' → j' < n → FiresIn M limits c j' f' →
      f.config.path.length < f'.config.path.length

variable {limits : Limits} {c : C} {n : Nat} {s : Search m M} {f f' : Firing m}
  {trail : Trail (Fin m.count) M K} {backtracks : Nat}

/-- What is fired in a turn is on the live path then. -/
theorem live_succ (hs : Loop.after (step limits) n (start m M limits c) = some s)
    (hf : s.next = .fires f trail backtracks) : Live M limits c (n + 1) f := by
  refine ⟨n, Nat.lt_succ_self n, ⟨s, trail, backtracks, hs, hf⟩, fun j' f' hj hj' => ?_⟩
  omega

/-- What is on the live path stays there if what is fired next is further down. -/
theorem Live.succ (h : Live M limits c n f')
    (hs : Loop.after (step limits) n (start m M limits c) = some s)
    (hf : s.next = .fires f trail backtracks)
    (hlt : f'.config.path.length < f.config.path.length) : Live M limits c (n + 1) f' := by
  obtain ⟨j, hj, hfires, hlater⟩ := h
  refine ⟨j, Nat.lt_succ_of_lt hj, hfires, fun j' f₁ hj' hn hf₁ => ?_⟩
  rcases Nat.lt_succ_iff_lt_or_eq.1 hn with hn | rfl
  · exact hlater j' f₁ hj' hn hf₁
  · obtain ⟨s₁, trail₁, backtracks₁, hs₁, hnext⟩ := hf₁
    obtain rfl := Option.some.inj (hs.symm.trans hs₁)
    obtain ⟨rfl, -, -⟩ := Next.fires.inj (hf.symm.trans hnext)
    exact hlt

end Live

section Traced

variable [LawfulBEq K] {limits : Limits} {c : C} {n : Nat} {l : List (Firing m)} {s : Search m M}

/-- What holds of a search at the head of turn `n`, beside `Lined`: the contexts derive from one
another along the line, and its firings are those on the live path. -/
structure Traced (limits : Limits) (c : C) (n : Nat) (l : List (Firing m)) (s : Search m M) :
    Prop extends Lined l s where
  derived : Derived l s.config.context
  live : ∀ f ∈ l, Live M limits c n f

/-- A turn that goes on keeps the search on its line, and its line on the live path. -/
theorem Traced.step (hm : m.Rewinds) (h : Traced limits c n l s)
    (hs : Loop.after (Search.step limits) n (start m M limits c) = some s) {s' : Search m M}
    (hstep : Search.step limits s = .continue s') :
    ∃ f rest, Traced limits c (n + 1) (f :: rest) s' := by
  obtain ⟨f, trail, backtracks, hf, rfl⟩ := exists_fires_of_step hstep
  obtain ⟨g, past, rest, hg, rfl, hcontext, hline, hi, htrail⟩ := h.toLined.of_next hf
  have hderived : Derived rest f.config.context := by
    rw [hcontext]
    exact Derived.unwind hm (h.derived.trans (Configuration.derives_of_entered hg))
  refine ⟨f, rest, lined_fire hline hi htrail backtracks, ⟨.refl _, hderived⟩, fun f₁ hf₁ => ?_⟩
  rcases List.mem_cons.1 hf₁ with rfl | hf₁
  · exact live_succ hs hf
  · -- What stays on the line was fired further up than `f`.
    refine (h.live f₁ (List.mem_append_right past hf₁)).succ hs hf ?_
    have hlength : f.config.path.length = rest.length := hline.length_path
    rw [hlength]
    exact hline.length_lt_of_mem hf₁

/-- **At the head of every turn, a search is on its live path.** -/
theorem traced_of_after (hm : m.Rewinds)
    (h : Loop.after (Search.step limits) n (start m M limits c) = some s) :
    ∃ l, Traced limits c n l s := by
  refine Loop.after_induction (P := fun n s => ∃ l, Traced limits c n l s) ?_ ?_ h
  · exact ⟨[], lined_start limits c, trivial, fun f hf => by cases hf⟩
  · rintro n t t' ht ⟨l, hl⟩ hs
    obtain ⟨f, rest, hl'⟩ := hl.step hm ht hs
    exact ⟨f :: rest, hl'⟩

end Traced

/-- The moments of a search in the turn that begins with `s`: the configuration and the choices
that are on the trail. They include those at which the search might have gone back further than it
has. -/
inductive Moment (s : Search m M) : Configuration m → List (Choice (Fin m.count) M K) → Prop
  /-- The state is about to be entered. -/
  | head : s.Moment s.config s.trail.choices
  /-- The action has run. -/
  | entered : s.Moment s.config.enter.1 s.trail.choices
  /-- The outcome is settled. -/
  | settled {g : Configuration m} {o : Outcome} :
      s.config.turn = .settled g o → s.Moment g s.trail.choices
  /-- After a rejection, the search has gone back past the choices `past`. -/
  | returning {g : Configuration m} {reason : String} {past rest} :
      s.config.turn = .settled g (.rejected reason) → s.trail.choices = past ++ rest →
      s.Moment (unwind g past) rest
  /-- It has gone back past the choice `c` and takes it up again. -/
  | returned {g : Configuration m} {reason : String} {past c rest} :
      s.config.turn = .settled g (.rejected reason) → s.trail.choices = past ++ c :: rest →
      s.Moment (returned (unwind g (past ++ [c])) c) rest

section Moment

variable [LawfulBEq K] {l : List (Firing m)} {s : Search m M} {g : Configuration m}
  {choices : List (Choice (Fin m.count) M K)}

/-- What holds at the head of a turn holds, of what is left of the line, at its every moment. -/
theorem Lined.of_moment (hm : m.Rewinds) (h : Lined l s) (hd : Derived l s.config.context)
    (hg : s.Moment g choices) : ∃ past rest, l = past ++ rest ∧ Stands rest g ∧
      Derived rest g.context ∧ choices <+: rest.map Firing.choice := by
  have hsettled : ∀ {g : Configuration m} {o : Outcome}, s.config.turn = .settled g o →
      Stands l g ∧ Derived l g.context := by
    intro g o ht
    refine ⟨stands_of_line ?_, hd.trans ?_⟩
    · rw [Configuration.place_of_turn_eq_settled ht]
      exact h.line
    · exact Configuration.derives_of_entered (Configuration.of_turn_eq_settled ht)
  cases hg with
  | head => exact ⟨[], l, rfl, stands_of_line h.line, hd, h.trail⟩
  | entered =>
    refine ⟨[], l, rfl, stands_of_line h.line, hd.trans ?_, h.trail⟩
    exact Configuration.derives_of_entered (.inl rfl)
  | settled ht => exact ⟨[], l, rfl, (hsettled ht).1, (hsettled ht).2, h.trail⟩
  | returning ht hpast =>
    obtain ⟨past, rest, rfl, rfl, hrest⟩ := exists_append_of_prefix_map (hpast ▸ h.trail)
    obtain ⟨hstands, hderived⟩ := hsettled ht
    exact ⟨past, rest, rfl, hstands.unwind, hderived.unwind hm, hrest⟩
  | returned ht hpast =>
    obtain ⟨past, l', rfl, rfl, hl'⟩ := exists_append_of_prefix_map (hpast ▸ h.trail)
    -- The choice to which the search has returned is that of a firing `f`, undone like the others.
    obtain ⟨f, rest, rfl, rfl, hrest⟩ := exists_cons_of_prefix_map hl'
    obtain ⟨hstands, hderived⟩ := hsettled ht
    rw [unwind_append]
    obtain ⟨hplace, hline⟩ := place_restore (hstands.unwind (M := M))
    have hcontext := (hderived.unwind hm).context_restore hm
    refine ⟨past ++ [f], rest, List.append_cons past f rest, stands_of_line ?_, ?_, hrest⟩
    · exact hplace.symm ▸ hline
    · exact hcontext.symm ▸ (hderived.unwind hm).2

end Moment
end Search

/-- **A choice brings back what it was noted for.** At any moment of a search, under any limits,
let one go back past the latest `k` choices on the trail and cut the path to the length noted in
the last of them. This gives the state, the context, the stack and the path in which that choice's
transition was fired on the live path. -/
theorem unwind_of_moment [Input C] [Rewind C M] [BEq K] [LawfulBEq K] {m : Machine C K}
    (hm : m.Rewinds) {limits : Limits} {c : C} {n : Nat} {s : Search m M}
    (hs : Loop.after (Search.step limits) n (Search.start m M limits c) = some s)
    {g : Configuration m} {choices : List (Choice (Fin m.count) M K)} (hg : s.Moment g choices)
    {k : Nat} (hk : 0 < k) (hlength : k ≤ choices.length) :
    ∃ f : Firing m, Search.Live M limits c n f ∧ choices[k - 1]? = some f.choice ∧
      (Search.unwind g (choices.take k)).context = f.config.context ∧
      ((Search.unwind g (choices.take k)).cut (f.choice (M := M)).depth).place =
        f.config.place := by
  obtain ⟨l, hl⟩ := Search.traced_of_after hm hs
  obtain ⟨before, l', rfl, hstands, hderived, hprefix⟩ := hl.toLined.of_moment hm hl.derived hg
  obtain ⟨j, rfl⟩ : ∃ j, k = j + 1 := ⟨k - 1, by omega⟩
  have hj : j < choices.length := hlength
  rw [← List.take_append_drop j choices, List.drop_eq_getElem_cons hj] at hprefix
  obtain ⟨past, l', rfl, hpast, hl'⟩ := exists_append_of_prefix_map hprefix
  obtain ⟨f, rest, rfl, hf, -⟩ := exists_cons_of_prefix_map hl'
  rw [List.take_succ_eq_append_getElem hj, hpast, hf, Search.unwind_append]
  refine ⟨f, hl.live f (by simp), ?_, (hderived.unwind hm).context_restore hm, ?_⟩
  · exact hf ▸ List.getElem?_eq_getElem hj
  · exact (Search.place_restore (hstands.unwind (M := M))).1

/-- A search on `aa` has returned once and moved on when its latest two choices are taken back. -/
theorem palindrome_unwinds :
    ∃ s : Search Palindrome.machine Nat,
      Loop.after (Search.step {}) 7
        (Search.start Palindrome.machine Nat {} (Tape.ofString "aa")) = some s ∧
      s.backtracks = 1 ∧
      ∃ f, Search.Live Nat {} (Tape.ofString "aa") 7 f ∧
        s.trail.choices[1]? = some f.choice ∧
        (Search.unwind s.config (s.trail.choices.take 2)).context = f.config.context ∧
        ((Search.unwind s.config (s.trail.choices.take 2)).cut (f.choice (M := Nat)).depth).place =
          f.config.place :=
  ⟨_, rfl, rfl,
    unwind_of_moment Palindrome.rewinds_machine rfl .head Nat.two_pos (by decide)⟩

end StateMachine
