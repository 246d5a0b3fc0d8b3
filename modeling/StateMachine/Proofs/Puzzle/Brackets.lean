/-
# The bracket machine recognises balanced texts

A text is balanced if the grammar `B → ε | blank B | open B close B` generates it. In the middle of
a text, what remains has to close the brackets that are open, the one on top of the stack first
(`Brackets.Closes`). The first character that remains decides how this goes on
(`Brackets.closes_cons_iff`), and to each way there is one transition of the machine, so a direct
run keeps it; at most one transition is eligible, so a search has nothing to return to.
-/

import StateMachine.Proofs.Acceptance
import StateMachine.Proofs.Deterministic
import StateMachine.Proofs.Draft.Realization
import StateMachine.Puzzle.Brackets

namespace StateMachine

universe u v

namespace Brackets

variable (b : Brackets)

/-- The texts of brackets and blanks in which every bracket is closed by its partner. -/
inductive Balanced : List Char → Prop
  | nil : Balanced []
  | blank {w : List Char} : Balanced w → Balanced (b.blank :: w)
  | pair {p : Char × Char} {v w : List Char} :
      p ∈ b.pairs → Balanced v → Balanced w → Balanced (p.1 :: (v ++ p.2 :: w))

/-- The text closes the given open brackets, the first one first, with balanced texts in between
and after the last. -/
def Closes : List Char → List Char → Prop
  | [], w => b.Balanced w
  | o :: k, w => ∃ p ∈ b.pairs, o = p.1 ∧ ∃ v u, w = v ++ p.2 :: u ∧ b.Balanced v ∧ Closes k u

variable {b} {x : Char} {k w : List Char}

/-- A balanced text begins with the blank, or with an opening bracket whose closing one comes after
a balanced text and before another. -/
theorem balanced_cons_iff :
    b.Balanced (x :: w) ↔ (x = b.blank ∧ b.Balanced w) ∨ ∃ p ∈ b.pairs, x = p.1 ∧
      ∃ v u, w = v ++ p.2 :: u ∧ b.Balanced v ∧ b.Balanced u := by
  constructor
  · intro h
    cases h with
    | blank h => exact .inl ⟨rfl, h⟩
    | pair hp hv hu => exact .inr ⟨_, hp, rfl, _, _, rfl, hv, hu⟩
  · rintro (⟨rfl, h⟩ | ⟨p, hp, rfl, v, u, rfl, hv, hu⟩)
    · exact .blank h
    · exact .pair hp hv hu

/-- Two balanced texts, one after the other, are balanced. -/
theorem Balanced.append {v : List Char} (hv : b.Balanced v) (hw : b.Balanced w) :
    b.Balanced (v ++ w) := by
  induction hv with
  | nil => exact hw
  | blank _ ih => exact .blank ih
  | pair hp hv _ _ ih =>
    rw [List.cons_append, List.append_assoc, List.cons_append]
    exact .pair hp hv ih

/-- A balanced text before does not matter to the brackets that are open. -/
theorem Closes.append {v : List Char} (hw : b.Closes k w) (hv : b.Balanced v) :
    b.Closes k (v ++ w) := by
  cases k with
  | nil => exact hv.append hw
  | cons o k =>
    obtain ⟨p, hp, ho, v', u, rfl, hv', hu⟩ := hw
    exact ⟨p, hp, ho, v ++ v', u, (List.append_assoc ..).symm, hv.append hv', hu⟩

/-- A text without characters closes no bracket. -/
theorem closes_nil_iff : b.Closes k [] ↔ k = [] := by
  cases k with
  | nil => simp [Closes, Balanced.nil]
  | cons o k => simp [Closes]

/-- **The first character decides:** it is a blank, opens a bracket, or closes the one that was
opened last. -/
theorem closes_cons_iff :
    b.Closes k (x :: w) ↔ (x = b.blank ∧ b.Closes k w) ∨
      (∃ p ∈ b.pairs, x = p.1 ∧ b.Closes (p.1 :: k) w) ∨
      ∃ p ∈ b.pairs, x = p.2 ∧ ∃ l, k = p.1 :: l ∧ b.Closes l w := by
  constructor
  · intro h
    cases k with
    | nil =>
      rcases balanced_cons_iff.1 h with hblank | ⟨p, hp, rfl, v, u, rfl, hv, hu⟩
      · exact .inl hblank
      · exact .inr (.inl ⟨p, hp, rfl, p, hp, rfl, v, u, rfl, hv, hu⟩)
    | cons o k =>
      obtain ⟨q, hq, rfl, v, u, hw, hv, hu⟩ := h
      cases v with
      | nil =>
        obtain ⟨rfl, rfl⟩ := List.cons.inj hw
        exact .inr (.inr ⟨q, hq, rfl, k, rfl, hu⟩)
      | cons y v =>
        obtain ⟨rfl, rfl⟩ := List.cons.inj hw
        rcases balanced_cons_iff.1 hv with ⟨rfl, hv'⟩ | ⟨p, hp, rfl, v₁, v₂, rfl, hv₁, hv₂⟩
        · exact .inl ⟨rfl, q, hq, rfl, v, u, rfl, hv', hu⟩
        · refine .inr (.inl ⟨p, hp, rfl, p, hp, rfl, v₁, v₂ ++ q.2 :: u, by simp, hv₁, ?_⟩)
          exact ⟨q, hq, rfl, v₂, u, rfl, hv₂, hu⟩
  · rintro (⟨rfl, h⟩ | ⟨p, hp, rfl, p', hp', hpp', v, u, rfl, hv, hu⟩ | ⟨p, hp, rfl, l, rfl, h⟩)
    · exact h.append (Balanced.nil.blank)
    · rw [hpp']
      simpa using hu.append (Balanced.pair hp' hv .nil)
    · exact ⟨p, hp, rfl, [], w, rfl, .nil, h⟩

section Transitions

variable {σ : Type u} {shift : σ} {t : Transition (Tape Char) Char σ} {c : Tape Char} {s : Stack Char}

/-- A transition skips the blank, or opens or closes a pair of brackets. -/
theorem mem_transitions_iff :
    t ∈ b.transitions shift ↔
      t = b.skipping shift ∨ ∃ p ∈ b.pairs, t = opening shift p ∨ t = closing shift p := by
  simp only [transitions, List.mem_cons, List.mem_flatMap, List.not_mem_nil, or_false]

/-- The blank is skipped wherever it stands. -/
theorem eligible_skipping : (b.skipping shift).eligible c s ↔ c.current = some b.blank := by
  change true && (c.current == some b.blank) ↔ _
  rw [Bool.true_and, beq_iff_eq]

/-- An opening bracket may be read wherever it stands. -/
theorem eligible_opening {p : Char × Char} :
    (opening shift p).eligible c s ↔ c.current = some p.1 := by
  change true && (c.current == some p.1) ↔ _
  rw [Bool.true_and, beq_iff_eq]

/-- A closing bracket may be read only if its opening one is on top of the stack. -/
theorem eligible_closing {p : Char × Char} :
    (closing shift p).eligible c s ↔ s.top? = some p.1 ∧ c.current = some p.2 := by
  change (s.top? == some p.1) && (c.current == some p.2) ↔ _
  rw [Bool.and_eq_true, beq_iff_eq, beq_iff_eq]

/-- **Each way on has its transition:** the text that remains closes the open brackets if, after a
transition that is eligible, the rest of it closes those that are then open. -/
theorem closes_iff_exists_eligible (hc : c.remaining = x :: w) :
    b.Closes s.topFirst (x :: w) ↔ ∃ t ∈ b.transitions shift, t.eligible c s ∧
      b.Closes (s.apply t.pop t.push).topFirst w := by
  have hcurrent := (Tape.current_of_remaining hc).1
  obtain ⟨k⟩ := s
  rw [closes_cons_iff]
  constructor
  · rintro (⟨rfl, h⟩ | ⟨p, hp, rfl, h⟩ | ⟨p, hp, rfl, l, rfl, h⟩)
    · exact ⟨b.skipping shift, mem_transitions_iff.2 (.inl rfl), eligible_skipping.2 hcurrent, h⟩
    · exact ⟨opening shift p, mem_transitions_iff.2 (.inr ⟨p, hp, .inl rfl⟩),
        eligible_opening.2 hcurrent, h⟩
    · exact ⟨closing shift p, mem_transitions_iff.2 (.inr ⟨p, hp, .inr rfl⟩),
        eligible_closing.2 ⟨rfl, hcurrent⟩, h⟩
  · rintro ⟨t, ht, he, h⟩
    rcases mem_transitions_iff.1 ht with rfl | ⟨p, hp, rfl | rfl⟩
    · have hx := Option.some.inj (hcurrent.symm.trans (eligible_skipping.1 he))
      exact .inl ⟨hx, h⟩
    · have hx := Option.some.inj (hcurrent.symm.trans (eligible_opening.1 he))
      exact .inr (.inl ⟨p, hp, hx, h⟩)
    · obtain ⟨htop, hclosing⟩ := eligible_closing.1 he
      have hx := Option.some.inj (hcurrent.symm.trans hclosing)
      obtain ⟨l, rfl⟩ := List.head?_eq_some_iff.1 htop
      exact .inr (.inr ⟨p, hp, hx, l, rfl, h⟩)

/-- The transition is eligible only at the character. -/
def Reads (t : Transition (Tape Char) Char σ) (a : Char) : Prop :=
  ∀ c s, t.eligible c s → c.current = some a

/-- Transitions that read different characters exclude each other. -/
theorem Reads.not_eligible {u : Transition (Tape Char) Char σ} {a a' : Char}
    (ht : Reads t a) (hu : Reads u a') (ha : a ≠ a') :
    ∀ c s, t.eligible c s → ¬ u.eligible c s :=
  fun c s he hu' => ha (Option.some.inj ((ht c s he).symm.trans (hu c s hu')))

/-- Every transition of the scanning state reads one character. -/
theorem exists_reads_of_mem_transitions (ht : t ∈ b.transitions shift) : ∃ a, Reads t a := by
  rcases mem_transitions_iff.1 ht with rfl | ⟨p, -, rfl | rfl⟩
  · exact ⟨b.blank, fun c s => eligible_skipping.1⟩
  · exact ⟨p.1, fun c s => eligible_opening.1⟩
  · exact ⟨p.2, fun c s he => (eligible_closing.1 he).2⟩

/-- All transitions of `scan` lead to `shift`. -/
theorem target_of_mem_transitions (ht : t ∈ b.transitions shift) : t.target = shift := by
  rcases mem_transitions_iff.1 ht with rfl | ⟨p, -, rfl | rfl⟩ <;> rfl

/-- The brackets and the blank are different, so at most one transition is eligible. -/
theorem pairwise_transitions :
    (b.transitions shift).Pairwise fun t u => ∀ c s, t.eligible c s → ¬ u.eligible c s := by
  have hopening : ∀ p, Reads (opening shift p) p.1 := fun p c s => eligible_opening.1
  have hclosing : ∀ p, Reads (closing shift p) p.2 := fun p c s he => (eligible_closing.1 he).2
  have hskipping : Reads (b.skipping shift) b.blank := fun c s => eligible_skipping.1
  obtain ⟨hblank, hpairs⟩ := List.nodup_cons.1 b.nodup
  obtain ⟨hpair, hdistinct⟩ := List.pairwise_flatMap.1 hpairs
  refine List.pairwise_cons.2 ⟨fun u hu => ?_, List.pairwise_flatMap.2 ⟨fun p hp => ?_, ?_⟩⟩
  · simp only [List.mem_flatMap, not_exists, not_and, List.mem_cons, List.not_mem_nil, or_false,
      not_or] at hblank hu
    obtain ⟨p, hp, rfl | rfl⟩ := hu
    · exact hskipping.not_eligible (hopening p) (hblank p hp).1
    · exact hskipping.not_eligible (hclosing p) (hblank p hp).2
  · have hne := hpair p hp
    simp only [List.pairwise_cons, List.mem_singleton, forall_eq] at hne
    exact List.pairwise_pair.2 ((hopening p).not_eligible (hclosing p) hne.1)
  · refine hdistinct.imp fun {p q} hne => ?_
    simp only [List.mem_cons, List.not_mem_nil, or_false, forall_eq_or_imp, forall_eq] at hne ⊢
    obtain ⟨⟨h₁, h₂⟩, h₃, h₄⟩ := hne
    exact ⟨⟨(hopening p).not_eligible (hopening q) h₁, (hopening p).not_eligible (hclosing q) h₂⟩,
      (hclosing p).not_eligible (hopening q) h₃, (hclosing p).not_eligible (hclosing q) h₄⟩

end Transitions

/-- What is declared of `scan` does not depend on how its target is given. -/
theorem retarget_scanState {σ : Type u} {τ : Type v} (f : σ → τ) (shift : σ) :
    (b.scanState shift).retarget f = b.scanState (f shift) := by
  have hpairs : (b.pairs.flatMap fun p => [opening shift p, closing shift p]).map
      (fun t => t.withTarget (f t.target)) =
        b.pairs.flatMap fun p => [opening (f shift) p, closing (f shift) p] := by
    rw [List.map_flatMap]
    exact List.flatMap_congr fun p _ => rfl
  exact congrArg (fun l => { b.scanState (f shift) with transitions := b.skipping (f shift) :: l })
    hpairs

/-- **The machine is built from what declares it,** whatever the brackets are. -/
theorem build_declarations (b : Brackets) :
    (Draft.ofDeclarations b.declarations).build = .ok b.machine := by
  have hstates : b.machine.draft.states = [b.scanState "shift", shiftState "scan"] :=
    congrArg (· :: [_]) (retarget_scanState b.machine.stateName (1 : Fin 2))
  have hdraft : Draft.ofDeclarations b.declarations = b.machine.draft :=
    congrArg (Draft.mk (some "brackets") (some "scan") · .acceptAtEnd) hstates.symm
  rw [hdraft, b.machine.build_draft]

/-- At most one transition is eligible at a time, since brackets and blank are all different. -/
theorem deterministic : b.machine.Deterministic := by
  have hstates : ∀ s : Fin 2, (b.states[s]).transitions.Pairwise
      fun t u => ∀ c k, t.eligible c k → ¬ u.eligible c k := by
    intro s
    match s with
    | 0 => exact pairwise_transitions
    | 1 => exact List.pairwise_singleton _ _
  exact hstates

/-- The machine only reads. -/
theorem rewinds : b.machine.Rewinds := by
  have haction : ∀ (s : Fin 2) t k, ((b.states[s]).action t k).1.symbols = t.symbols := by
    intro s t k
    match s with
    | 0 => rfl
    | 1 => exact t.symbols_after_advance
  have hdecide : ∀ (s : Fin 2) t k, (b.machine.decide s t k).1.symbols = t.symbols := by
    intro s t k
    match s with
    | 0 => rfl
    | 1 => rfl
  exact Machine.rewinds_of_symbols_eq haction hdecide

section Run

variable {g : Configuration b.machine}

/-- A turn in `shift` takes the symbol under the cursor and returns to `scan`. -/
theorem exists_step_of_shift (hg : g.state = (1 : Fin 2)) :
    ∃ g', Configuration.step {} g = .continue g' ∧ g'.state = (0 : Fin 2) ∧
      g'.context = g.context.after g.context.advance ∧ g'.stack = g.stack := by
  obtain ⟨s, c, k, path, steps, notices⟩ := g
  obtain rfl : s = (1 : Fin 2) := hg
  exact ⟨_, rfl, rfl, rfl, rfl⟩

/-- **A transition that is eligible in `scan`** is fired, and the next turn takes the symbol. -/
theorem exists_leadsTo_of_eligible (hg : g.state = (0 : Fin 2))
    {t : Transition (Tape Char) Char (Fin 2)} (ht : t ∈ b.transitions (1 : Fin 2))
    (he : t.eligible g.context g.stack) :
    ∃ g' : Configuration b.machine,
      Loop.LeadsTo (Configuration.step {}) (.continue g) (.continue g') ∧
      g'.state = (0 : Fin 2) ∧ g'.context = g.context.after g.context.advance ∧
      g'.stack = g.stack.apply t.pop t.push := by
  obtain ⟨s, c, k, path, steps, notices⟩ := g
  obtain rfl : s = (0 : Fin 2) := hg
  let g : Configuration b.machine := ⟨(0 : Fin 2), c, k, path, steps, notices⟩
  obtain ⟨i, rfl, hfire⟩ := deterministic.exists_fire_of_eligible (g := g) (c := c) rfl ht he
  have htarget : ((g.entered c).fire i).state = (1 : Fin 2) := target_of_mem_transitions ht
  obtain ⟨g', hshift, hstate, hcontext, hstack⟩ := exists_step_of_shift htarget
  refine ⟨g', ?_, hstate, hcontext, hstack⟩
  exact (Loop.LeadsTo.of_step hfire).trans (Loop.LeadsTo.of_step hshift)

/-- **Where no transition is eligible in `scan`,** a direct run is over, and accepts if nothing
remains and no bracket is open. -/
theorem exists_step_of_impasse (hg : g.state = (0 : Fin 2))
    (hnone : ∀ t ∈ b.transitions (1 : Fin 2), ¬ t.eligible g.context g.stack) :
    ∃ r : Report (Tape Char), Configuration.step {} g = .finish r ∧
      (r.outcome = .accepted ↔ g.context.remaining = [] ∧ g.stack = .empty) := by
  obtain ⟨s, c, k, path, steps, notices⟩ := g
  obtain rfl : s = (0 : Fin 2) := hg
  let g : Configuration b.machine := ⟨(0 : Fin 2), c, k, path, steps, notices⟩
  have hselect : (g.entered c).select 0 = none := Configuration.select_zero_eq_none_iff.2 hnone
  refine ⟨_, Configuration.step_of_settled (Configuration.turn_of_impasse rfl hselect), ?_⟩
  change Impasse.atEnd ⟨"scan", true, k⟩ (Input.atEnd c) = .accepted ↔
    c.remaining = [] ∧ k = .empty
  rw [Impasse.atEnd_eq_accepted_iff, Tape.atEnd_iff_remaining]
  exact and_iff_right rfl

/-- **In `scan`, a direct run accepts what closes the open brackets.** -/
theorem exists_run_iff_closes (w : List Char) (g : Configuration b.machine)
    (hg : g.state = (0 : Fin 2)) (hw : g.context.remaining = w) :
    ∃ turns r, Loop.run (Configuration.step {}) turns g = some r ∧
      (r.outcome = .accepted ↔ b.Closes g.stack.topFirst w) := by
  induction w generalizing g with
  | nil =>
    have hcurrent := Tape.current_of_remaining_nil hw
    obtain ⟨r, hr, hiff⟩ := exists_step_of_impasse hg fun t ht he => by
      obtain ⟨a, ha⟩ := exists_reads_of_mem_transitions ht
      cases hcurrent.symm.trans (ha _ _ he)
    refine ⟨1, r, by rw [Loop.run, hr], hiff.trans ?_⟩
    rw [closes_nil_iff, hw, and_iff_right rfl]
    cases g.stack
    simp [Stack.empty]
  | cons x w ih =>
    by_cases h : ∃ t ∈ b.transitions (1 : Fin 2), t.eligible g.context g.stack
    · obtain ⟨t, ht, he⟩ := h
      obtain ⟨g', hto, hstate, hcontext, hstack⟩ := exists_leadsTo_of_eligible hg ht he
      have hw' : g'.context.remaining = w := hcontext ▸ (Tape.current_of_remaining hw).2
      obtain ⟨turns, r, hr, hiff⟩ := ih g' hstate hw'
      obtain ⟨turns', hr'⟩ := hto.exists_proceed hr
      refine ⟨turns', r, hr', hiff.trans ?_⟩
      rw [hstack, closes_iff_exists_eligible hw]
      refine ⟨fun hcloses => ⟨t, ht, he, hcloses⟩, ?_⟩
      rintro ⟨u, hu, heu, hcloses⟩
      -- The two are the same, since both are eligible.
      rwa [deterministic.eq_of_eligible (s := (0 : Fin 2)) ht hu he heu]
    · obtain ⟨r, hr, hiff⟩ := exists_step_of_impasse hg fun t ht he => h ⟨t, ht, he⟩
      refine ⟨1, r, by rw [Loop.run, hr], hiff.trans ?_⟩
      rw [closes_iff_exists_eligible hw, hw]
      constructor
      · rintro ⟨hnil, -⟩
        cases hnil
      · rintro ⟨t, ht, he, -⟩
        exact absurd ⟨t, ht, he⟩ h

end Run
end Brackets

/-- **The bracket machine recognises exactly the balanced texts,** run directly or by a search; the
search does so without a backtrack. -/
theorem brackets_recognised (b : Brackets) (text : String) :
    (∃ turns r, b.machine.run {} (Tape.ofString text) turns = some r ∧
      (r.outcome = .accepted ↔ b.Balanced text.toList)) ∧
    ∃ turns r, b.machine.search {} (Tape.ofString text) turns = some r ∧
      (r.outcome = .accepted ↔ b.Balanced text.toList) ∧ r.backtracks = 0 := by
  obtain ⟨turns, r, hr, hrun⟩ := Brackets.exists_run_iff_closes text.toList
    (Configuration.start b.machine (Tape.ofString text)) rfl (Tape.remaining_ofString text)
  obtain ⟨turns', r', hr', hbacktracks, -, -, hsearch⟩ :=
    Brackets.deterministic.search_of_run Brackets.rewinds hr
  exact ⟨⟨turns, r, hr, hrun⟩, turns', r', hr', hsearch.trans hrun, hbacktracks⟩

/-- Brackets that overlap are not balanced. -/
example :
    (Brackets.common.machine.run {} (Tape.ofString "([ ])") 11).map Report.outcome =
      some .accepted ∧
    (Brackets.common.machine.run {} (Tape.ofString "([)]") 11).map Report.outcome =
      some (.rejected "unexpected input in state 'scan'") := by
  decide +kernel

end StateMachine
