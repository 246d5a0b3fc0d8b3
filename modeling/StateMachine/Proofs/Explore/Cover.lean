/-
# A search is a recursion

`search_iff_explore` says that a search without limits ends exactly when exploring the initial
state does, and that both find the same: outcome, path, context and counts. One direction is
`foretells_explore`. For the other, a search that ends within so many turns never goes deeper than
that, so exploring to this depth ends as well (`covers_explore`).

A rewind is assumed to obey no law. Equal symbols must be the same, since the search puts back on
the stack the symbol that a transition requires, and not the one it took off. With symbols that are
equal without being the same, a way that the recursion finds may be lost to the search
(`Caseless.search_not_explore`).
-/

import StateMachine.Draft.Build
import StateMachine.Proofs.Explore.Foretell
import StateMachine.Puzzle.Palindrome

namespace StateMachine

universe u v w

variable {C : Type u} {K : Type v} {M : Type w}

namespace Search

open Loop

variable [Input C] [Rewind C M] [BEq K] {m : Machine C K}

section Converse

variable [LawfulBEq K] {depth : Nat}

/-- Exploring to this depth ends wherever a search ends that has so many turns. -/
def Covers (m : Machine C K) (M : Type w) [Rewind C M] (depth : Nat) : Prop :=
  ∀ (s : Search m M) (r : Report C), s.trail.limit = none → run (step {}) depth s = some r →
    ∃ f, m.explore depth s.config.state s.config.context s.config.stack s.config.path = some f

variable (hd : Covers m M depth) {s : Fin m.count} {k : Stack K} {h : Path}
  {trail : Trail (Fin m.count) M K} (ht : trail.limit = none) {n b : Nat}
  {notices : List (Notice C)} {r : Report C}

include hd ht

/-- If a search comes to a result after firing a transition, then exploring the target ends; and
after a rejection, the search comes to the result from where it tries the later transitions. -/
theorem exists_explore_of_fire {c : C} {i : Fin (m.state s).transitions.length}
    (hi : (m.transitionOf s i).eligible c k)
    (hr : proceed (step {}) depth
      (fire {} (⟨s, c, k, h, n, notices⟩ : Configuration m) i trail b) = some r) :
    ∃ f, m.explore depth (m.transitionOf s i).target c
        (k.apply (m.transitionOf s i).pop (m.transitionOf s i).push)
        (h.push (m.moveOf s i)) = some f ∧
      f.path.truncate h.length = h ∧
      ∀ reason, f.outcome = .rejected reason →
        ∃ (trail' : Trail (Fin m.count) M K) (n' b' : Nat) (notices' : List (Notice C)),
          trail'.limit = none ∧ proceed (step {}) depth
            (retry {} reason trail' b' trail.choices h.length
              ⟨s, Rewind.rewind f.context (Rewind.mark c), k, f.path, n', notices'⟩
              ((List.finRange (m.state s).transitions.length).drop (i + 1))) = some r := by
  let g : Configuration m := ⟨s, c, k, h, n, notices⟩
  have hlimit : (trail.push (choiceOf g i)).limit = none := (trail.limit_push _).trans ht
  have hrun := hr
  rw [fire_of_exceeded rfl] at hrun
  obtain ⟨f, hf⟩ := hd ⟨g.fire i, trail.push (choiceOf g i), b⟩ r hlimit hrun
  refine ⟨f, hf, Path.truncate_of_push (foretells_explore (M := M) depth _ _ _ _ _ hf).1,
    fun reason hrej => ?_⟩
  obtain ⟨trail', notices', ht', hto⟩ :=
    leadsTo_retry_of_rejected (foretells_explore depth) hf ht n b notices hi hrej
  exact ⟨trail', _, _, notices', ht', hto.proceed_eq hr⟩

/-- Trying the remaining transitions ends where a search that has returned comes to a result. -/
theorem exists_tryEach_of_retry (l : List (Fin (m.state s).transitions.length)) {low : Nat}
    (hl : (List.finRange (m.state s).transitions.length).drop low = l) {last : Finding C} {c : C}
    (hpath : last.path.truncate h.length = h) {reason : String}
    {rest : List (Choice (Fin m.count) M K)}
    (hr : proceed (step {}) depth (retry {} reason trail b rest h.length
      ⟨s, c, k, last.path, n, notices⟩ l) = some r) :
    ∃ f, m.tryEach (m.explore depth) s k h (some last) l c = some f := by
  induction l generalizing low last c reason trail n b notices with
  | nil => exact ⟨_, rfl⟩
  | cons i l ih =>
    obtain ⟨rfl, hl⟩ := val_of_drop_finRange hl
    let g : Configuration m := ⟨s, c, k, last.path, n, notices⟩
    rw [Machine.tryEach]
    split
    · rename_i hi
      rw [retry_cons_of_eligible (g := g) hi hpath] at hr
      have hlimit : ({ trail with choices := rest } : Trail (Fin m.count) M K).limit = none := ht
      obtain ⟨f, hf, hp, hrej⟩ := exists_explore_of_fire hd hlimit hi hr
      rw [hf]
      cases ho : f.outcome with
      | accepted => exact ⟨f.count (some last), by simp only [ho]⟩
      | rejected reason' =>
        simp only [ho]
        obtain ⟨trail', n', b', notices', ht', hr'⟩ := hrej reason' ho
        rw [hl] at hr'
        exact ih ht' hl hp hr'
    · rename_i hi
      rw [retry_cons_of_not_eligible (g := g) hi] at hr
      exact ih ht hl hpath hr

/-- Trying the transitions ends where a search that has entered a state comes to a result. -/
theorem exists_tryEach_of_choose (l : List (Fin (m.state s).transitions.length)) {low : Nat}
    (hl : (List.finRange (m.state s).transitions.length).drop low = l) {c : C}
    (hr : proceed (step {}) depth (choose {} trail b ⟨s, c, k, h, n, notices⟩ l) = some r) :
    ∃ f, m.tryEach (m.explore depth) s k h none l c = some f := by
  induction l generalizing low with
  | nil => exact ⟨_, rfl⟩
  | cons i l ih =>
    obtain ⟨rfl, hl⟩ := val_of_drop_finRange hl
    let g : Configuration m := ⟨s, c, k, h, n, notices⟩
    rw [Machine.tryEach]
    split
    · rename_i hi
      rw [choose_cons_of_eligible (g := g) hi] at hr
      obtain ⟨f, hf, hp, hrej⟩ := exists_explore_of_fire hd ht hi hr
      rw [hf]
      cases ho : f.outcome with
      | accepted => exact ⟨f.count none, by simp only [ho]⟩
      | rejected reason' =>
        simp only [ho]
        obtain ⟨trail', n', b', notices', ht', hr'⟩ := hrej reason' ho
        rw [hl] at hr'
        exact exists_tryEach_of_retry hd ht' l hl hp hr'
    · rename_i hi
      rw [choose_cons_of_not_eligible (g := g) hi] at hr
      exact ih hl hr

end Converse

/-- **A search never goes deeper than it has turns.** -/
theorem covers_explore [LawfulBEq K] (depth : Nat) : Covers m M depth := by
  induction depth with
  | zero => intro s r _ hr; cases hr
  | succ depth ih =>
    intro s r ht hr
    rw [run_succ] at hr
    rw [Machine.explore]
    split
    · exact ⟨_, rfl⟩
    · exact ⟨_, rfl⟩
    · rename_i c ha
      rw [step_of_proceed ha] at hr
      exact exists_tryEach_of_choose ih ht _ List.drop_zero hr

/-- What exploring the initial state finds, the search finds. -/
theorem exists_search_of_explore [LawfulBEq K] {c : C} {depth : Nat} {e : Finding C}
    (he : m.explore depth m.initial c .empty (.nil (m.stateName m.initial)) = some e) :
    ∃ turns r, m.search {} c turns = some r ∧ r.finding = e.concluded := by
  have hfinds := (foretells_explore depth _ _ _ _ _ he).2 0 0 []
    (.empty none : Trail (Fin m.count) M K) rfl
  cases ho : e.outcome with
  | accepted =>
    obtain ⟨r, hr, hfound⟩ := (finds_accepted_iff ho).1 hfinds
    obtain ⟨turns, h⟩ := hr.exists_proceed (n := 0) rfl
    exact ⟨turns, r, h, by rw [hfound, Finding.add_zero, Finding.concluded, ho]⟩
  | rejected reason =>
    obtain ⟨trail, s, notices, -, hr⟩ := (finds_rejected_iff ho).1 hfinds
    obtain ⟨turns, h⟩ := hr.exists_proceed (n := 0) rfl
    refine ⟨turns, _, h, ?_⟩
    rw [Finding.concluded, ho]
    simp only [exhausted, Report.finding, Configuration.finish, Configuration.notify, Nat.zero_add]

/-- What the search finds, exploring the initial state finds. -/
theorem exists_explore_of_search [LawfulBEq K] {c : C} {turns : Nat} {r : Report C}
    (hr : m.search {} c turns = some r) :
    ∃ depth e, m.explore depth m.initial c .empty (.nil (m.stateName m.initial)) = some e ∧
      r.finding = e.concluded := by
  obtain ⟨e, he⟩ := covers_explore turns (start m M {} c) r rfl hr
  obtain ⟨turns', r', hr', hfound⟩ := exists_search_of_explore he
  obtain rfl := Loop.run_unique hr hr'
  exact ⟨turns, e, he, hfound⟩

end Search

/-- **A search is a recursion.** Without limits, it ends exactly when exploring the initial state
ends, and it finds the same; a rejection it tells to be final. Nothing is asked of contexts and their
marks, but symbols have to be equal only if they are the same: going back puts the symbol on the
stack that the transition requires, and not the one that was taken off. -/
theorem search_iff_explore [Input C] [Rewind C M] [BEq K] [LawfulBEq K] (m : Machine C K) (c : C)
    (f : Finding C) :
    (∃ turns r, m.search {} c turns = some r ∧ r.finding = f) ↔
      ∃ depth e, m.explore depth m.initial c .empty (.nil (m.stateName m.initial)) = some e ∧
        e.concluded = f := by
  constructor
  · rintro ⟨turns, r, hr, rfl⟩
    obtain ⟨depth, e, he, hfound⟩ := Search.exists_explore_of_search hr
    exact ⟨depth, e, he, hfound.symm⟩
  · rintro ⟨depth, e, he, rfl⟩
    exact Search.exists_search_of_explore he

/-- On `aa` the search pushes both symbols before it guesses the middle, so it returns once. -/
theorem palindrome_search_finds :
    ∃ turns r, Palindrome.machine.search {} (Tape.ofString "aa") turns = some r ∧
      r.finding = {
        outcome := .accepted
        context := { symbols := #['a', 'a'], position := 2, position_le := by decide }
        path := ⟨"push", #[⟨"push", "shift", 0⟩, ⟨"shift", "push", 0⟩, ⟨"push", "match", 2⟩,
          ⟨"match", "reduce", 0⟩, ⟨"reduce", "match", 0⟩]⟩
        steps := 8
        backtracks := 1 } :=
  (search_iff_explore Palindrome.machine _ _).2 ⟨7, _, rfl, rfl⟩

/-! ## Symbols that are equal without being the same -/

/-- A letter that is compared without regard to its case. -/
structure Caseless where
  letter : Char

instance : BEq Caseless := ⟨fun a b => a.letter.toLower == b.letter.toLower⟩

namespace Caseless

/-- Comparing letters like this is an equivalence. -/
instance : EquivBEq Caseless where
  rfl {a} := beq_self_eq_true a.letter.toLower
  symm {a b} h := BEq.symm (a := a.letter.toLower) (b := b.letter.toLower) h
  trans {a b c} h h' :=
    BEq.trans (a := a.letter.toLower) (b := b.letter.toLower) (c := c.letter.toLower) h h'

/-- The machine pushes `A`. Then it may pop `a`, which leads to a dead end, or go on if the symbol on
top of the stack is an `A` and no `a`. -/
def fork : List (Declaration (Tape Char) Caseless) :=
  [.initial "start",
    .state ((State.named "start").transition ((Transition.towards "middle").pushing ⟨'A'⟩)),
    .state ((State.named "middle")
      |>.transition ((Transition.towards "dead").popping ⟨'a'⟩)
      |>.transition ((Transition.towards "safe").guarded
        ⟨fun _ s => s.top?.any fun k => k.letter == 'A'⟩)),
    .state ((State.named "dead").onEntry fun c _ => (c, .reject "dead end")),
    .state ((State.named "safe").onEntry fun c _ => (c, .accept))]

/-- **A search may lose a way that the recursion finds,** if symbols are equal that are not the same,
even if equality is an equivalence. When the search has come back from the dead end, an `a` is on
the stack in place of the `A` that was popped; so the second transition is not eligible any more,
and the search rejects what exploring accepts. -/
theorem search_not_explore : EquivBEq Caseless ∧
    ∃ m, (Draft.ofDeclarations fork).build = .ok m ∧
    (∃ depth e, m.explore depth m.initial (Tape.ofString "") .empty
      (.nil (m.stateName m.initial)) = some e ∧ e.outcome = .accepted ∧
        e.path.states = ["start", "middle", "safe"]) ∧
    (∃ turns r, m.search {} (Tape.ofString "") turns = some r ∧
      r.outcome = .rejected "backtracking exhausted: dead end" ∧
        r.path.states = ["start", "middle", "dead"]) ∧
    ¬ ∀ f : Finding (Tape Char),
      (∃ turns r, m.search {} (Tape.ofString "") turns = some r ∧ r.finding = f) ↔
        ∃ depth e, m.explore depth m.initial (Tape.ofString "") .empty
          (.nil (m.stateName m.initial)) = some e ∧ e.concluded = f := by
  have hruns : ∃ m, (Draft.ofDeclarations fork).build = .ok m ∧
      (∃ e, m.explore 3 m.initial (Tape.ofString "") .empty (.nil (m.stateName m.initial)) = some e ∧
        e.outcome = .accepted ∧ e.path.states = ["start", "middle", "safe"]) ∧
      ∃ r, m.search {} (Tape.ofString "") 3 = some r ∧
        r.outcome = .rejected "backtracking exhausted: dead end" ∧
          r.path.states = ["start", "middle", "dead"] :=
    ⟨_, rfl, ⟨_, rfl, rfl, rfl⟩, _, rfl, rfl, rfl⟩
  obtain ⟨m, hm, ⟨e, he, haccepted, hway⟩, r, hr, hrejected, hlast⟩ := hruns
  refine ⟨inferInstance, m, hm, ⟨3, e, he, haccepted, hway⟩, ⟨3, r, hr, hrejected, hlast⟩,
    fun hsame => ?_⟩
  obtain ⟨turns, r', hr', hfound⟩ := (hsame e.concluded).2 ⟨3, e, he, rfl⟩
  obtain rfl := Loop.run_unique hr hr'
  have houtcome : r.outcome = e.concluded.outcome := congrArg Finding.outcome hfound
  rw [hrejected, e.concluded_accepted_iff.2 haccepted] at houtcome
  cases houtcome

end Caseless
end StateMachine
