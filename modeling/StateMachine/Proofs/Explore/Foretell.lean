/-
# What exploring a state foretells

Exploring a state tells what a search finds that is about to enter it. `Search.Finds` is this
relation between a moment of a search, which may lie within a turn, and a finding. After an
acceptance the search finishes. After a rejection it comes to take up the choices that were on the
trail before the state was entered: those that were made since have been used up, and stack and
trail are as they were.

`foretells_explore` goes by induction on the depth and, inside a state, along the transitions that
are still to be tried (`foretellsAfter_of_foretells`).
-/

import StateMachine.Proofs.Explore.Basic
import StateMachine.Proofs.Loop
import StateMachine.Proofs.Turn

namespace StateMachine

universe u v w

variable {C : Type u} {K : Type v} {M : Type w}

namespace Search

open Loop

variable [Input C] [Rewind C M] [BEq K] {m : Machine C K}

/-- A search that stands at `p` is about to find `f`, counted from the given numbers of steps and
backtracks on: it finishes with this acceptance, or comes to take up the choices `rest` after this
rejection, with the stack back at `k`. -/
def Finds (rest : List (Choice (Fin m.count) M K)) (k : Stack K) (steps backtracks : Nat)
    (p : Progress (Search m M) (Report C)) (f : Finding C) : Prop :=
  match f.outcome with
  | .accepted =>
    ∃ r : Report C, LeadsTo (step {}) p (.finish r) ∧
      r.finding = f.add steps backtracks
  | .rejected reason =>
    ∃ (trail : Trail (Fin m.count) M K) (s : Fin m.count) (notices : List (Notice C)),
      trail.limit = none ∧ LeadsTo (step {}) p
        (resume {} reason trail (backtracks + f.backtracks) rest
          ⟨s, f.context, k, f.path, steps + f.steps, notices⟩)

section Finds

variable {rest : List (Choice (Fin m.count) M K)} {k : Stack K} {n b : Nat}
  {p q : Progress (Search m M) (Report C)} {f : Finding C}

/-- What is found from a later moment on is found from an earlier one. -/
theorem finds_of_leadsTo (h : LeadsTo (step {}) p q) (hq : Finds rest k n b q f) :
    Finds rest k n b p f := by
  unfold Finds at hq ⊢
  split at hq
  · obtain ⟨r, hr, he⟩ := hq
    exact ⟨r, h.trans hr, he⟩
  · obtain ⟨trail, s, notices, ht, hr⟩ := hq
    exact ⟨trail, s, notices, ht, h.trans hr⟩

/-- To find an acceptance is to finish with it, with what was counted before added. -/
theorem finds_accepted_iff (h : f.outcome = .accepted) :
    Finds rest k n b p f ↔ ∃ r : Report C, LeadsTo (step {}) p (.finish r) ∧
      r.finding = f.add n b := by
  rw [Finds, h]

/-- To find a rejection is to come to where the search returns to its remaining choices. -/
theorem finds_rejected_iff {reason : String} (h : f.outcome = .rejected reason) :
    Finds rest k n b p f ↔ ∃ (trail : Trail (Fin m.count) M K) (s : Fin m.count)
      (notices : List (Notice C)), trail.limit = none ∧ LeadsTo (step {}) p
        (resume {} reason trail (b + f.backtracks) rest
          ⟨s, f.context, k, f.path, n + f.steps, notices⟩) := by
  rw [Finds, h]

end Finds

/-- `visit` foretells a search: what it gives for a state is what a search finds that is about to
enter this state, whatever it has done before; and the path it gives continues the path there. -/
def Foretells (m : Machine C K)
    (visit : Fin m.count → C → Stack K → Path → Option (Finding C)) : Prop :=
  ∀ s c k h f, visit s c k h = some f → f.path.truncate h.length = h ∧
    ∀ n b notices (trail : Trail (Fin m.count) M K), trail.limit = none →
      Finds trail.choices k n b (.continue ⟨⟨s, c, k, h, n, notices⟩, trail, b⟩) f

/-- Trying the transitions `l` after a rejection foretells what a search finds that has returned to
the state and looks for the next transition among them. -/
def ForetellsAfter (visit : Fin m.count → C → Stack K → Path → Option (Finding C)) (s : Fin m.count)
    (k : Stack K) (h : Path) (rest : List (Choice (Fin m.count) M K)) (n b : Nat)
    (l : List (Fin (m.state s).transitions.length)) : Prop :=
  ∀ (last f : Finding C) (c : C) (reason : String) (trail : Trail (Fin m.count) M K)
    (notices : List (Notice C)), last.outcome = .rejected reason →
    last.path.truncate h.length = h → trail.limit = none →
    m.tryEach visit s k h (some last) l c = some f → f.path.truncate h.length = h ∧
      Finds rest k n b (retry {} reason trail (b + last.backtracks) rest h.length
        ⟨s, c, k, last.path, n + last.steps, notices⟩ l) f

/-- An outcome that has been settled is found at once. -/
theorem finds_settle {trail : Trail (Fin m.count) M K} (ht : trail.limit = none) (b : Nat)
    (g : Configuration m) (o : Outcome) :
    Finds trail.choices g.stack g.steps b (settle {} trail b g o)
      ⟨o, g.context, g.path, 0, 0⟩ := by
  cases o with
  | accepted => exact (finds_accepted_iff rfl).2 ⟨_, LeadsTo.refl _, rfl⟩
  | rejected reason =>
    exact (finds_rejected_iff rfl).2 ⟨trail, g.state, g.notices, ht, LeadsTo.refl _⟩

section Fire

variable {visit : Fin m.count → C → Stack K → Path → Option (Finding C)}
  (hv : Foretells (M := M) m visit) {s : Fin m.count} {c : C} {k : Stack K} {h : Path}
  {i : Fin (m.state s).transitions.length} {f : Finding C}
  (hf : visit (m.transitionOf s i).target c
    (k.apply (m.transitionOf s i).pop (m.transitionOf s i).push)
    (h.push (m.moveOf s i)) = some f)
  {trail : Trail (Fin m.count) M K} (ht : trail.limit = none) (n b : Nat)
  (notices : List (Notice C))

include hv hf ht

/-- An acceptance after a transition is the search's own. -/
theorem leadsTo_finish_of_accepted (hr : f.outcome = .accepted) :
    ∃ r : Report C,
      LeadsTo (step {}) (fire {} (⟨s, c, k, h, n, notices⟩ : Configuration m) i trail b)
        (.finish r) ∧
      r.finding = f.add (n + 1) b := by
  let g : Configuration m := ⟨s, c, k, h, n, notices⟩
  have hlimit : (trail.push (choiceOf g i)).limit = none := (trail.limit_push _).trans ht
  obtain ⟨r, hl, hr⟩ := (finds_accepted_iff hr).1
    ((hv _ _ _ _ _ hf).2 (n + 1) b (g.fire i).notices (trail.push (choiceOf g i)) hlimit)
  refine ⟨r, ?_, hr⟩
  rw [fire_of_exceeded rfl]
  exact hl

/-- After a rejection the search takes up the choice that was noted for the transition, with the
state and the stack as they were, and looks for one of the later transitions. -/
theorem leadsTo_retry_of_rejected [LawfulBEq K]
    (hi : (m.transitionOf s i).eligible c k) {reason : String}
    (hr : f.outcome = .rejected reason) :
    ∃ (trail' : Trail (Fin m.count) M K) (notices' : List (Notice C)), trail'.limit = none ∧
      LeadsTo (step {}) (fire {} (⟨s, c, k, h, n, notices⟩ : Configuration m) i trail b)
        (retry {} reason trail' (b + f.backtracks) trail.choices h.length
          ⟨s, Rewind.rewind f.context (Rewind.mark c), k, f.path, n + 1 + f.steps, notices'⟩
          ((List.finRange (m.state s).transitions.length).drop (i + 1))) := by
  let g : Configuration m := ⟨s, c, k, h, n, notices⟩
  have hlimit : (trail.push (choiceOf g i)).limit = none := (trail.limit_push _).trans ht
  obtain ⟨trail', s', notices', ht', hl⟩ := (finds_rejected_iff hr).1
    ((hv _ _ _ _ _ hf).2 (n + 1) b (g.fire i).notices (trail.push (choiceOf g i)) hlimit)
  refine ⟨trail', notices', ht', ?_⟩
  rw [fire_of_exceeded rfl]
  rw [Trail.choices_push, ht, resume_cons] at hl
  have hrestore : restore (⟨s', f.context, k.apply (m.transitionOf s i).pop
      (m.transitionOf s i).push, f.path, n + 1 + f.steps, notices'⟩ : Configuration m)
      (choiceOf g i) =
      ⟨s, Rewind.rewind f.context (Rewind.mark c), k, f.path, n + 1 + f.steps, notices'⟩ :=
    congrArg (fun k' => (⟨s, Rewind.rewind f.context (Rewind.mark c), k', f.path,
      n + 1 + f.steps, notices'⟩ : Configuration m)) (stack_restore (g := g) hi rfl)
  rw [hrestore] at hl
  exact hl

/-- What comes of firing a transition, from what its target comes to and, after a rejection, from
what trying the later transitions comes to. `a` and `e` count what was done before in this state. -/
theorem finds_fire [LawfulBEq K] (hi : (m.transitionOf s i).eligible c k) (a e : Nat)
    {l : List (Fin (m.state s).transitions.length)}
    (hl : (List.finRange (m.state s).transitions.length).drop (i + 1) = l)
    (hafter : ForetellsAfter visit s k h trail.choices n b l) {last : Option (Finding C)}
    (hcount : f.count last = f.add (a + 1) e) {f' : Finding C}
    (hf' : (match f.outcome with
      | .accepted => some (f.count last)
      | .rejected _ => m.tryEach visit s k h (some (f.count last)) l
          (Rewind.rewind f.context (Rewind.mark c))) = some f') :
    f'.path.truncate h.length = h ∧ Finds trail.choices k n b
      (fire {} (⟨s, c, k, h, n + a, notices⟩ : Configuration m) i trail (b + e)) f' := by
  have hpath : f.path.truncate h.length = h := Path.truncate_of_push (hv _ _ _ _ _ hf).1
  rw [hcount] at hf'
  split at hf'
  · rename_i hacc
    obtain rfl := Option.some.inj hf'
    obtain ⟨r, hr, he⟩ := leadsTo_finish_of_accepted hv hf ht (n + a) (b + e) notices hacc
    refine ⟨hpath, (finds_accepted_iff (f := f.add (a + 1) e) hacc).2 ⟨r, hr, ?_⟩⟩
    rw [he, Finding.add_add, Nat.add_assoc]
  · rename_i reason hrej
    obtain ⟨trail', notices', ht', hto⟩ :=
      leadsTo_retry_of_rejected hv hf ht (n + a) (b + e) notices hi hrej
    have hnext := hafter (f.add (a + 1) e) f' _ reason trail' notices' hrej hpath ht' hf'
    rw [hl, Nat.add_assoc n a 1, Nat.add_assoc, Nat.add_assoc] at hto
    exact ⟨hnext.1, finds_of_leadsTo hto hnext.2⟩

end Fire

section Try

variable [LawfulBEq K] {visit : Fin m.count → C → Stack K → Path → Option (Finding C)}
  (hv : Foretells (M := M) m visit) {s : Fin m.count} {k : Stack K} {h : Path}
  (l : List (Fin (m.state s).transitions.length)) {low : Nat}
  (hl : (List.finRange (m.state s).transitions.length).drop low = l)

include hv hl

/-- **Trying the remaining transitions is what a search does that has returned.** -/
theorem foretellsAfter_of_foretells (rest : List (Choice (Fin m.count) M K)) (n b : Nat) :
    ForetellsAfter visit s k h rest n b l := by
  intro last f c reason trail notices hlast hpath ht hf
  induction l generalizing low last f c reason trail notices with
  | nil =>
    obtain rfl := Option.some.inj hf
    exact ⟨hpath, (finds_rejected_iff (f := { last with context := c }) hlast).2
      ⟨trail, s, notices, ht, LeadsTo.refl _⟩⟩
  | cons i l ih =>
    obtain ⟨rfl, hl⟩ := val_of_drop_finRange hl
    let g : Configuration m := ⟨s, c, k, last.path, n + last.steps, notices⟩
    rw [Machine.tryEach] at hf
    split at hf
    · rename_i hi
      rw [retry_cons_of_eligible (g := g) hi hpath]
      split at hf
      · cases hf
      · rename_i f₁ hf₁
        have hlimit : ({ trail with choices := rest } : Trail (Fin m.count) M K).limit = none := ht
        exact finds_fire hv hf₁ hlimit n b _ hi last.steps (last.backtracks + 1) hl (ih hl) rfl hf
    · rename_i hi
      rw [retry_cons_of_not_eligible (g := g) hi]
      exact ih hl last f c reason trail notices hlast hpath ht hf

/-- **Trying the transitions is what a search does that has entered a state.** -/
theorem finds_choose {c : C} {f : Finding C} (hf : m.tryEach visit s k h none l c = some f)
    (n b : Nat) (notices : List (Notice C)) {trail : Trail (Fin m.count) M K}
    (ht : trail.limit = none) :
    f.path.truncate h.length = h ∧
      Finds trail.choices k n b (choose {} trail b ⟨s, c, k, h, n, notices⟩ l) f := by
  let g : Configuration m := ⟨s, c, k, h, n, notices⟩
  induction l generalizing low with
  | nil =>
    obtain rfl := Option.some.inj hf
    exact ⟨Path.truncate_length h, finds_settle ht b g.decide.1 g.decide.2⟩
  | cons i l ih =>
    obtain ⟨rfl, hl'⟩ := val_of_drop_finRange hl
    rw [Machine.tryEach] at hf
    split at hf
    · rename_i hi
      rw [choose_cons_of_eligible (g := g) hi]
      split at hf
      · cases hf
      · rename_i f₁ hf₁
        exact finds_fire hv hf₁ ht n b notices hi 0 0 hl'
          (foretellsAfter_of_foretells hv l hl' trail.choices n b) rfl hf
    · rename_i hi
      rw [choose_cons_of_not_eligible (g := g) hi]
      exact ih hl' hf

end Try

/-- **Exploring a state foretells what a search finds from there on.** -/
theorem foretells_explore [LawfulBEq K] (depth : Nat) :
    Foretells (M := M) m (m.explore depth) := by
  induction depth with
  | zero => intro s c k h f hf; cases hf
  | succ depth ih =>
    intro s c k h f hf
    rw [Machine.explore] at hf
    split at hf
    · rename_i c' ha
      obtain rfl := Option.some.inj hf
      refine ⟨Path.truncate_length h, fun n b notices trail ht => ?_⟩
      refine finds_of_leadsTo (LeadsTo.head _) ?_
      rw [step_of_accept ha]
      exact finds_settle ht b ((⟨s, c, k, h, n, notices⟩ : Configuration m).entered c') _
    · rename_i c' reason ha
      obtain rfl := Option.some.inj hf
      refine ⟨Path.truncate_length h, fun n b notices trail ht => ?_⟩
      refine finds_of_leadsTo (LeadsTo.head _) ?_
      rw [step_of_reject ha]
      exact finds_settle ht b ((⟨s, c, k, h, n, notices⟩ : Configuration m).entered c') _
    · rename_i c' ha
      -- How the path goes on does not depend on the trail, so an empty one will do for it.
      have hempty : (Trail.empty none : Trail (Fin m.count) M K).limit = none := rfl
      refine ⟨(finds_choose ih _ List.drop_zero hf 0 0 [] hempty).1, fun n b notices trail ht => ?_⟩
      refine finds_of_leadsTo (LeadsTo.head _) ?_
      rw [step_of_proceed ha]
      exact (finds_choose ih _ List.drop_zero hf n b _ ht).2

end Search
end StateMachine
