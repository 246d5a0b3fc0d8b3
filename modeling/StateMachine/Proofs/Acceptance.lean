/-
# What acceptance means by default

Let a machine leave every acceptance to the default decision (`Machine.DecidesAtEnd`). Then an
accepted run or search has ended in an accepting state, with the input used up and an empty stack,
and could not have gone on; and a direct run that comes to such a point is accepted
(`accepted_completes`).

The stack is not in the report. Its path tells that the stack was empty, since it makes the stack as
high as it was (`Configuration.Leveled`). The context is there as the decision has found it, since
the default decision does not change it.
-/

import StateMachine.Proofs.Level
import StateMachine.Puzzle.Palindrome

namespace StateMachine

universe u v w

variable {C : Type u} {K : Type v} {M : Type w}

/-- The default decision accepts in an accepting state, if the input is used up and the stack is
empty. -/
theorem Impasse.atEnd_eq_accepted_iff {i : Impasse K} {inputUsed : Bool} :
    i.atEnd inputUsed = .accepted ↔
      i.accepting = true ∧ inputUsed = true ∧ i.stack = .empty := by
  obtain ⟨state, accepting, ⟨stack⟩⟩ := i
  cases accepting <;> cases inputUsed <;> cases stack <;>
    simp [atEnd, Stack.isEmpty, Stack.empty]

/-- The input of a tape is used up when all its symbols are consumed. -/
theorem Tape.atEnd_iff {α : Type u} (t : Tape α) :
    Input.atEnd t = true ↔ t.consumed = t.symbols.toList := by
  have hend : Input.atEnd t = true ↔ t.symbols.size ≤ t.position := by
    change t.current.isNone = true ↔ _
    simp [current]
  rw [hend]
  constructor
  · intro h
    exact List.take_of_length_le h
  · intro h
    have hlength := congrArg List.length h
    rw [length_consumed, Array.length_toList] at hlength
    omega

namespace Machine

variable (m : Machine C K)

/-- Acceptance is left to the default decision at an impasse: the policy is the default one, no
state decides for itself, and no action accepts. -/
structure DecidesAtEnd : Prop where
  policy : m.policy = .acceptAtEnd
  onImpasse : ∀ i, (m.state i).onImpasse = none
  action : ∀ i c s, ((m.state i).action c s).2 ≠ .accept

variable [Input C]

/-- A machine that decides at the end asks at every impasse whether the input has ended, the state
is accepting and the stack is empty, and leaves the context alone. -/
theorem DecidesAtEnd.decide_eq {m : Machine C K} (h : m.DecidesAtEnd) (i : Fin m.count) (c : C)
    (s : Stack K) : m.decide i c s =
      (c, Impasse.atEnd ⟨m.stateName i, (m.state i).accepting, s⟩ (Input.atEnd c)) := by
  unfold decide
  simp only [h.onImpasse, h.policy]
  rfl

/-- A report of a run that has ended where nothing was left to do: in an accepting state, with the
input used up, and with pops and pushes along its path that cancel out. No transition was eligible
there. -/
def Completes [BEq K] (r : Report C) : Prop :=
  ∃ i, m.stateName i = r.path.last ∧ (m.state i).accepting = true ∧
    Input.atEnd r.context = true ∧ m.stackAfter r.path.moves.toList = some .empty ∧
    ∀ t ∈ (m.state i).transitions, ¬ t.eligible r.context .empty

end Machine

namespace Configuration

variable [BEq K] {m : Machine C K} {g e : Configuration m}

/-- No transition of the state is selected if none is eligible. -/
theorem select_zero_eq_none_iff :
    g.select 0 = none ↔ ∀ t ∈ g.transitions, ¬ t.eligible g.context g.stack := by
  rw [select_eq_none_iff]
  constructor
  · intro h t ht
    obtain ⟨k, hk, rfl⟩ := List.mem_iff_getElem.1 ht
    exact h ⟨k, hk⟩ (Nat.zero_le _)
  · intro h j _
    exact h _ (List.getElem_mem j.isLt)

variable [Input C]

/-- **An acceptance in a turn** is a decision at an impasse, and changes nothing but what the action
has changed. -/
theorem of_turn_eq_accepted (hm : m.DecidesAtEnd) (h : g.turn = .settled e .accepted) :
    e.place = g.place ∧ (m.state g.state).accepting = true ∧ Input.atEnd e.context = true ∧
      g.stack = .empty ∧ ∀ t ∈ (m.state g.state).transitions, ¬ t.eligible e.context g.stack := by
  cases ha : (m.state g.state).action g.context g.stack with
  | mk c signal =>
    cases signal with
    | accept =>
      have haccept := hm.action g.state g.context g.stack
      rw [ha] at haccept
      exact absurd rfl haccept
    | reject reason =>
      rw [turn_of_reject ha] at h
      cases h
    | proceed =>
      cases hs : (g.entered c).select 0 with
      | some i =>
        rw [turn_of_select ha hs] at h
        cases h
      | none =>
        rw [turn_of_impasse ha hs] at h
        have hdecide : (g.entered c).decide = (g.entered c, Impasse.atEnd
            ⟨g.stateName, (m.state g.state).accepting, g.stack⟩ (Input.atEnd c)) := by
          unfold decide
          rw [hm.decide_eq]
          rfl
        rw [hdecide] at h
        obtain ⟨he, ho⟩ := Turn.settled.inj h
        obtain ⟨haccepting, hend, hstack⟩ := Impasse.atEnd_eq_accepted_iff.1 ho
        subst he
        exact ⟨rfl, haccepting, hend, hstack, select_zero_eq_none_iff.1 hs⟩

/-- Where nothing is left to do, a turn accepts. -/
theorem turn_of_completes (hm : m.DecidesAtEnd) {c : C}
    (ha : (m.state g.state).action g.context g.stack = (c, .proceed))
    (ht : ∀ t ∈ (m.state g.state).transitions, ¬ t.eligible c g.stack)
    (haccepting : (m.state g.state).accepting = true) (hend : Input.atEnd c = true)
    (hstack : g.stack = .empty) : g.turn = .settled (g.entered c) .accepted := by
  have hs : (g.entered c).select 0 = none := select_zero_eq_none_iff.2 ht
  have ho : Impasse.atEnd ⟨g.stateName, (m.state g.state).accepting, g.stack⟩ (Input.atEnd c) =
      .accepted := Impasse.atEnd_eq_accepted_iff.2 ⟨haccepting, hend, hstack⟩
  have hdecide : (g.entered c).decide = (g.entered c, .accepted) := by
    unfold decide
    rw [hm.decide_eq, ← ho]
    rfl
  rw [turn_of_impasse ha hs, hdecide]

/-- What is reported of an acceptance in a turn whose stack is as high as the path makes it. -/
theorem completes_finish (hm : m.DecidesAtEnd) (h : g.turn = .settled e .accepted)
    (hleveled : g.Leveled) (hlast : g.path.last = g.stateName) (backtracks : Nat) :
    m.Completes (e.finish .accepted backtracks) := by
  obtain ⟨hplace, haccepting, hend, hstack, ht⟩ := of_turn_eq_accepted hm h
  have hpath : e.path = g.path := congrArg Place.path hplace
  obtain ⟨s, hs, hsize⟩ := leveled_iff.1 hleveled
  rw [hstack] at hsize
  obtain rfl := Stack.eq_empty_of_size hsize
  rw [hstack] at ht
  refine ⟨g.state, ?_, haccepting, hend, ?_, ht⟩
  · exact hlast.symm.trans (congrArg Path.last hpath.symm)
  · rw [← hs, ← hpath]
    rfl

end Configuration

/-- **Acceptance by default means consumed input and a balanced stack.** Let a machine leave its
acceptances to the default decision.

* A direct run or a search that is accepted has ended in an accepting state, with the input used up,
  and the pops and pushes of its path lead from the empty stack to the empty stack. No transition
  was eligible there.
* A direct run that comes to such a point, after an action that lets it go on, is accepted there.
* The input of a tape is used up when all its symbols are consumed. -/
theorem accepted_completes [Input C] [Rewind C M] [BEq K] {m : Machine C K}
    (hm : m.DecidesAtEnd) (limits : Limits) (c : C) :
    (∀ turns r, m.run limits c turns = some r → r.outcome = .accepted → m.Completes r) ∧
    (∀ turns r, m.search (M := M) limits c turns = some r → r.outcome = .accepted →
      m.Completes r) ∧
    (∀ n g c', Loop.after (Configuration.step limits) n (Configuration.start m c) = some g →
      (m.state g.state).action g.context g.stack = (c', .proceed) →
      (∀ t ∈ (m.state g.state).transitions, ¬ t.eligible c' g.stack) →
      (m.state g.state).accepting = true → Input.atEnd c' = true →
      m.stackAfter g.path.moves.toList = some .empty →
      ∃ r, m.run limits c (n + 1) = some r ∧ r.outcome = .accepted ∧ r.path = g.path ∧
        r.context = c') ∧
    ∀ {α : Type u} (t : Tape α), Input.atEnd t = true ↔ t.consumed = t.symbols.toList := by
  refine ⟨?_, ?_, ?_, fun t => t.atEnd_iff⟩
  · intro turns r hr ho
    obtain ⟨n, -, g, hg, hfinish⟩ := Loop.run_eq_some_iff.1 hr
    rcases Configuration.of_step_eq_finish hfinish with ⟨e, o, ht, rfl⟩ | ⟨e, i, o, -, he, rfl⟩
    · obtain rfl : o = .accepted := ho
      exact Configuration.completes_finish hm ht (Configuration.leveled_of_after hg)
        (Configuration.last_path_of_after hg) 0
    · obtain ⟨k, -, -, rfl⟩ := Limits.exceeded_eq_some_iff.1 he
      cases ho
  · intro turns r hr ho
    obtain ⟨n, -, s, hs, hfinish⟩ := Loop.run_eq_some_iff.1 hr
    rcases Search.of_step_eq_finish hfinish with hn | ⟨f, trail, b, o, -, he, rfl⟩
    · rcases Search.of_next_eq_ends hn with ⟨e, ht, rfl⟩ | ⟨e, reason, -, rfl, -⟩
      · exact Configuration.completes_finish hm ht (Search.leveled_of_after hs)
          (Search.last_path_of_after hs) s.backtracks
      · cases ho
    · obtain ⟨k, -, -, rfl⟩ := Limits.exceeded_eq_some_iff.1 he
      cases ho
  · intro n g c' hg ha ht haccepting hend hstack
    -- The path leads to the empty stack, and the stack of the run is as high.
    obtain ⟨s, hs, hsize⟩ := Configuration.leveled_iff.1 (Configuration.leveled_of_after hg)
    obtain rfl := Option.some.inj (hs.symm.trans hstack)
    have hturn := Configuration.turn_of_completes hm ha ht haccepting hend
      (Stack.eq_empty_of_size hsize.symm)
    refine ⟨_, Loop.run_eq_some_iff.2
      ⟨n, Nat.lt_succ_self n, g, hg, Configuration.step_of_settled hturn⟩, rfl, rfl, rfl⟩

/-- The palindrome machine accepts by the default decision only. A search on `aa` finds that the two
symbols cancel out; a direct run on the empty text comes to the impasse at once. -/
theorem palindrome_completes :
    Palindrome.machine.DecidesAtEnd ∧
    (∃ r, Palindrome.machine.search {} (Tape.ofString "aa") 9 = some r ∧ r.path.length = 5 ∧
      Palindrome.machine.Completes r) ∧
    ∃ r, Palindrome.machine.run {} (Tape.ofString "") 2 = some r ∧ r.outcome = .accepted := by
  have hm : Palindrome.machine.DecidesAtEnd := by
    have honImpasse : ∀ i : Fin 4, Palindrome.states[i].onImpasse = none
      | 0 | 1 | 2 | 3 => rfl
    have haction : ∀ (i : Fin 4) c s, (Palindrome.states[i].action c s).2 ≠ .accept
      | 0 | 1 | 2 | 3 => nofun
    exact ⟨rfl, honImpasse, haction⟩
  refine ⟨hm, ⟨_, rfl, rfl, ?_⟩, ?_⟩
  · exact (accepted_completes hm {} (Tape.ofString "aa")).2.1 9 _ rfl rfl
  · obtain ⟨r, hr, ho, -⟩ := (accepted_completes (M := Nat) hm {} (Tape.ofString "")).2.2.1 1 _ _
      rfl rfl (by decide) rfl rfl (by decide +kernel)
    exact ⟨r, hr, ho⟩

end StateMachine
