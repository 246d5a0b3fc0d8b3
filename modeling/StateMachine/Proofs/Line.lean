/-
# The line of firings behind a run

A run, or a search, stands at the end of a line of firings: each of them was made where the one
before had led. `Line` says this of a list of firings, the latest first, and of the place to which
they lead, that is, of state, stack and path.

A search keeps the choices of the latest firings on its trail, possibly not of all. Going back past
some of them leads to the place of the earliest one, once the path is cut (`place_restore`,
`Stands.unwind`): each choice undoes the stack effect of its own firing, so the places in between
take care of themselves. From this, `lined_of_after` follows: at the head of every turn of a search,
its trail is the latest part of a line that leads to where it stands.
-/

import StateMachine.Proofs.Firing
import StateMachine.Proofs.Loop

namespace StateMachine

universe u v w

variable {C : Type u} {K : Type v} {M : Type w}

section Prefix

variable {α : Type u} {β : Type v} {f : α → β} {l : List α}

/-- What is a prefix of an image and has two parts comes from a list in two parts. -/
theorem exists_append_of_prefix_map {a b : List β} (h : a ++ b <+: l.map f) :
    ∃ l₁ l₂, l = l₁ ++ l₂ ∧ a = l₁.map f ∧ b <+: l₂.map f := by
  obtain ⟨t, ht⟩ := h
  rw [List.append_assoc] at ht
  obtain ⟨l₁, l₂, rfl, rfl, h₂⟩ := List.map_eq_append_iff.1 ht.symm
  exact ⟨l₁, l₂, rfl, rfl, t, h₂.symm⟩

/-- What is a prefix of an image and has a first element comes from a list that has one. -/
theorem exists_cons_of_prefix_map {b : β} {bs : List β} (h : b :: bs <+: l.map f) :
    ∃ x l', l = x :: l' ∧ b = f x ∧ bs <+: l'.map f := by
  obtain ⟨t, ht⟩ := h
  obtain ⟨x, l', rfl, rfl, hl'⟩ := List.map_eq_cons_iff.1 ht.symm
  exact ⟨x, l', rfl, rfl, t, hl'.symm⟩

end Prefix

/-- Where a run stands, its context and its counts apart. -/
structure Place (m : Machine C K) where
  state : Fin m.count
  stack : Stack K
  path : Path

/-- The place before the first move. -/
def Place.start (m : Machine C K) : Place m := ⟨m.initial, .empty, .nil (m.stateName m.initial)⟩

namespace Configuration

variable {m : Machine C K}

/-- Where the configuration stands. -/
def place (g : Configuration m) : Place m := ⟨g.state, g.stack, g.path⟩

/-- Entering a state does not move. -/
theorem place_enter (g : Configuration m) : g.enter.1.place = g.place := rfl

/-- A decision at an impasse does not move. -/
theorem place_decide [Input C] (g : Configuration m) : g.decide.1.place = g.place := rfl

variable [Input C] [BEq K] {g e : Configuration m}

/-- A turn that settles the outcome does not move. -/
theorem place_of_turn_eq_settled {o : Outcome} (h : g.turn = .settled e o) :
    e.place = g.place := by
  rcases of_turn_eq_settled h with rfl | rfl
  · exact place_enter g
  · exact (place_decide _).trans (place_enter g)

end Configuration

/-- The given firings, the latest first, lead to a place from the beginning of a run: each was an
eligible transition at the place to which those before it lead. -/
inductive Line [BEq K] {m : Machine C K} : List (Firing m) → Place m → Prop
  | nil : Line [] (.start m)
  | cons {l : List (Firing m)} {f : Firing m} :
      Line l f.config.place → f.config.eligible f.index →
      Line (f :: l) (f.config.fire f.index).place

/-- There is one move for each firing. -/
theorem Line.length_path [BEq K] {m : Machine C K} {l : List (Firing m)} {p : Place m}
    (h : Line l p) : p.path.length = l.length := by
  induction h with
  | nil => rfl
  | cons _ _ ih => exact (Path.length_push _ _).trans (congrArg (· + 1) ih)

/-- No firing of a line was made further down than there were firings before it. -/
theorem Line.length_lt_of_mem [BEq K] {m : Machine C K} {l : List (Firing m)} {p : Place m}
    (h : Line l p) {f : Firing m} (hf : f ∈ l) : f.config.path.length < l.length := by
  induction h with
  | nil => cases hf
  | cons hl _ ih =>
    rw [List.length_cons]
    rcases List.mem_cons.1 hf with rfl | hf
    · have hlength : f.config.path.length = _ := hl.length_path
      omega
    · have := ih hf
      omega

namespace Search

section Stands

variable [Rewind C M] [BEq K] {m : Machine C K} {l : List (Firing m)} {g : Configuration m}

/-- The firings lead to where the search stands, its path being possibly longer: it is cut back
only when another transition has been found. -/
def Stands (l : List (Firing m)) (g : Configuration m) : Prop := Line l (g.cut l.length).place

/-- A search whose path has not grown beyond its firings stands at the end of their line. -/
theorem stands_of_line (h : Line l g.place) : Stands l g := by
  have hcut : g.cut l.length = g := by
    rw [Configuration.cut, ← h.length_path, Configuration.place, Path.truncate_length]
  rwa [Stands, hcut]

/-- **Going back past the latest choice leads to the place where its transition was fired**, once
the path is cut back to the length that was noted. -/
theorem place_restore [LawfulBEq K] {f : Firing m} (h : Stands (f :: l) g) :
    ((restore g (f.choice (M := M))).cut (f.choice (M := M)).depth).place = f.config.place ∧
      Line l f.config.place := by
  unfold Stands at h
  generalize hp : (g.cut (f :: l).length).place = p at h
  cases h with
  | cons hl hi =>
    -- Only the path may have grown since the firing; state and stack are those that it left.
    have hstack : (restore g (f.choice (M := M))).stack = f.config.stack :=
      stack_restore hi (congrArg Place.stack hp)
    have hpath : g.path.truncate (f.config.path.push (f.config.move f.index)).length =
        f.config.path.push (f.config.move f.index) := by
      have hlength : f.config.path.length = l.length := hl.length_path
      rw [Path.length_push, hlength]
      exact congrArg Place.path hp
    have hcut : (restore g (f.choice (M := M))).path.truncate (f.choice (M := M)).depth =
        f.config.path := Path.truncate_of_push hpath
    refine ⟨?_, hl⟩
    simp only [Configuration.place, Configuration.cut, hstack, hcut]
    rfl

/-- Going back past the latest choice, the search still stands at the end of a line. -/
theorem Stands.restore [LawfulBEq K] {f : Firing m} (h : Stands (f :: l) g) :
    Stands l (restore g (f.choice (M := M))) := by
  obtain ⟨hplace, hline⟩ := place_restore (M := M) h
  have hdepth : (f.choice (M := M)).depth = l.length := hline.length_path
  rwa [← hplace, hdepth] at hline

/-- Going back past any number of choices, the search still stands at the end of a line. -/
theorem Stands.unwind [LawfulBEq K] {past : List (Firing m)} (h : Stands (past ++ l) g) :
    Stands l (unwind g (past.map (Firing.choice (M := M)))) := by
  induction past generalizing g with
  | nil => exact h
  | cons f past ih => exact ih h.restore

end Stands

section Lined

variable [Rewind C M] [BEq K] {m : Machine C K}

/-- What holds of a search at the head of a turn: the firings `l`, the latest first, have led to
where it stands, and its trail keeps the choices of the latest of them. -/
structure Lined (l : List (Firing m)) (s : Search m M) : Prop where
  line : Line l s.config.place
  trail : s.trail.choices <+: l.map Firing.choice

/-- Before the first firing, a search stands at the beginning of a line. -/
theorem lined_start (limits : Limits) (c : C) : Lined [] (start m M limits c) :=
  ⟨.nil, List.nil_prefix⟩

/-- A firing is added to the line at whose end it was made. -/
theorem lined_fire {l : List (Firing m)} {f : Firing m} (h : Line l f.config.place)
    (hi : f.config.eligible f.index) {trail : Trail (Fin m.count) M K}
    (ht : trail.choices <+: l.map Firing.choice) (backtracks : Nat) :
    Lined (f :: l) ⟨f.config.fire f.index, trail.push f.choice, backtracks⟩ := by
  have hcons : f.choice :: trail.choices <+: (f :: l).map Firing.choice :=
    (List.prefix_cons_inj _).2 ht
  exact ⟨h.cons hi, (trail.choices_push_prefix f.choice).trans hcons⟩

variable [Input C] [LawfulBEq K] {limits : Limits}

/-- **What a turn does to the line.** From the configuration `g` in which the transitions of the
state have been looked at, the search goes back past the choices of the latest firings, possibly of
none; there the line now ends, and there it fires. -/
theorem Lined.of_next {l : List (Firing m)} {s : Search m M} (h : Lined l s) {f : Firing m}
    {trail : Trail (Fin m.count) M K} {backtracks : Nat}
    (hf : s.next = .fires f trail backtracks) :
    ∃ g past rest, (g = s.config.enter.1 ∨ g = s.config.enter.1.decide.1) ∧ l = past ++ rest ∧
      f.config.context = (unwind g (past.map (Firing.choice (M := M)))).context ∧
      Line rest f.config.place ∧ f.config.eligible f.index ∧
      trail.choices <+: rest.map Firing.choice := by
  rcases of_next_eq_fires hf with
    ⟨ht, rfl, -⟩ | ⟨g, reason, past, c, rest, ht, hl, rfl, -, hconfig, hi⟩
  · obtain ⟨he, hi⟩ := Configuration.of_turn_eq_choice ht
    have heligible := (Configuration.select_eq_some_iff.1 hi).2.1
    have hplace : f.config.place = s.config.place := by rw [he, Configuration.place_enter]
    exact ⟨_, [], l, .inl he, rfl, rfl, hplace ▸ h.line, heligible, h.trail⟩
  · -- The trail keeps choices of the line, so `c` is that of a firing `f'`, which is now replaced.
    obtain ⟨past', l', rfl, rfl, hl'⟩ := exists_append_of_prefix_map (hl ▸ h.trail)
    obtain ⟨f', rest', rfl, rfl, hrest⟩ := exists_cons_of_prefix_map hl'
    have hline : Line (past' ++ f' :: rest') g.place := by
      rw [Configuration.place_of_turn_eq_settled ht]
      exact h.line
    obtain ⟨hplace, hline⟩ := place_restore ((stands_of_line hline).unwind (M := M))
    rw [unwind_append] at hconfig
    refine ⟨g, past' ++ [f'], rest', Configuration.of_turn_eq_settled ht,
      List.append_cons past' f' rest', ?_, ?_, hi, hrest⟩
    · rw [hconfig, List.map_append, unwind_append]
      rfl
    · rw [hconfig]
      exact hplace.symm ▸ hline

/-- A turn that goes on keeps the search at the end of a line. -/
theorem Lined.step {l : List (Firing m)} {s s' : Search m M} (h : Lined l s)
    (hs : step limits s = .continue s') : ∃ f rest, Lined (f :: rest) s' := by
  obtain ⟨f, trail, backtracks, hf, rfl⟩ := exists_fires_of_step hs
  obtain ⟨-, -, rest, -, -, -, hline, hi, htrail⟩ := h.of_next hf
  exact ⟨f, rest, lined_fire hline hi htrail backtracks⟩

/-- **At the head of every turn, a search stands at the end of a line of firings** whose latest
choices are those on its trail. -/
theorem lined_of_after {n : Nat} {c : C} {s : Search m M}
    (h : Loop.after (Search.step limits) n (start m M limits c) = some s) : ∃ l, Lined l s := by
  refine Loop.after_induction (P := fun _ s => ∃ l, Lined l s) ⟨[], lined_start limits c⟩ ?_ h
  rintro n t t' - ⟨l, hl⟩ hs
  obtain ⟨f, rest, hl'⟩ := hl.step hs
  exact ⟨f :: rest, hl'⟩

end Lined
end Search
end StateMachine
