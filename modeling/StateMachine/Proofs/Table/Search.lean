/-
# No run refers to what is not there

A search of a table proceeds as one of a machine does. Beside what a direct run looks up, it looks up
the states of its choices, which were noted long before, and when it goes back it drops a symbol for
each choice that has pushed one.

A search of the table of a machine is the search of the machine and has no fault
(`Search.advance_numbered`). That there is a symbol to drop is not seen from the choice: it follows
from the height of the stack, which the path tells (`Search.level_restore`).
-/

import Mathlib.Algebra.Group.Nat.Defs
import StateMachine.Proofs.Level
import StateMachine.Proofs.Table.Run

namespace StateMachine

universe u v w

variable {C : Type u} {K : Type v} {M : Type w}

/-- The stack effect of going back past a choice, if there is a symbol to drop. -/
def Stack.checkedUndo (s : Stack K) (popped : Option K) (pushed : Bool) :
    Except Fault (Stack K) :=
  if pushed && s.isEmpty then .error .noSymbol else .ok (s.undo popped pushed)

/-- Undoing has no fault if there is a symbol to drop. -/
theorem Stack.checkedUndo_of_pos {s : Stack K} {pushed : Bool} (h : pushed = true → 0 < s.size)
    (popped : Option K) : s.checkedUndo popped pushed = .ok (s.undo popped pushed) := by
  refine if_neg fun hb => ?_
  obtain ⟨hpushed, hempty⟩ := Bool.and_eq_true_iff.1 hb
  obtain ⟨l⟩ := s
  have hl : l = [] := List.isEmpty_iff.1 hempty
  subst hl
  exact Nat.lt_irrefl 0 (h hpushed)

/-- A moment of a search of a table. -/
structure NumberedSearch (C : Type u) (K : Type v) (M : Type w) where
  config : Numbered C K
  trail : Trail Nat M K
  backtracks : Nat

namespace Table

/-- The beginning of a search. -/
def startSearch (b : Table C K) (M : Type w) (limits : Limits) (c : C) :
    Except Fault (NumberedSearch C K M) :=
  (b.start c).map fun g => { config := g, trail := .empty limits.trail, backtracks := 0 }

variable [Rewind C M]

/-- The note on a transition that is about to be fired. -/
def choiceOf (b : Table C K) (g : Numbered C K) (i : Nat) : Except Fault (Choice Nat M K) :=
  (b.stateAt g.state).bind fun s =>
  (transitionAt s i).map fun t =>
    { state := g.state, mark := Rewind.mark g.context, taken := i, popped := t.pop,
      pushed := t.push.isSome, depth := g.path.length }

/-- Puts back context, stack and state as the choice has noted them. -/
def restore (g : Numbered C K) (c : Choice Nat M K) : Except Fault (Numbered C K) :=
  (g.stack.checkedUndo c.popped c.pushed).map fun stack =>
    { g with context := Rewind.rewind g.context c.mark, stack, state := c.state }

variable [BEq K]

/-- Fires a transition if the limit allows it, and notes the choice. -/
def fireNoting (b : Table C K) (limits : Limits) (g : Numbered C K) (i : Nat)
    (trail : Trail Nat M K) (backtracks : Nat) :
    Except Fault (Progress (NumberedSearch C K M) (Report C)) :=
  match limits.exceeded g.steps with
  | some outcome => .ok (.finish (g.finish outcome backtracks))
  | none =>
    (b.choiceOf g i).bind fun c =>
    (b.fire g i).map fun g' => .continue { config := g', trail := trail.push c, backtracks }

/-- Returns, after a rejection, to the latest of the given choices that has an untried eligible
transition, and fires it. -/
def resume (b : Table C K) (limits : Limits) (reason : String) (trail : Trail Nat M K)
    (backtracks : Nat) : List (Choice Nat M K) → Numbered C K →
    Except Fault (Progress (NumberedSearch C K M) (Report C))
  | [], g =>
    let reason := s!"backtracking exhausted: {reason}"
    .ok (.finish ((g.notify (.exhausted reason)).finish (.rejected reason) backtracks))
  | c :: rest, g =>
    (restore g c).bind fun g =>
    (b.select g (c.taken + 1)).bind fun
    | none => resume b limits reason trail backtracks rest g
    | some i =>
      (b.stateAt c.state).bind fun s =>
        let g' : Numbered C K := { g with path := g.path.truncate c.depth }
        b.fireNoting limits (g'.notify (.returned s.name)) i { trail with choices := rest }
          (backtracks + 1)

variable [Input C]

/-- One turn of a search, unless it has a fault. -/
def advanceSearch (b : Table C K) (limits : Limits) (s : NumberedSearch C K M) :
    Except Fault (Progress (NumberedSearch C K M) (Report C)) :=
  (b.turn s.config).bind fun
  | .settled g .accepted => .ok (.finish (g.finish .accepted s.backtracks))
  | .settled g (.rejected reason) =>
    b.resume limits reason s.trail s.backtracks s.trail.choices g
  | .choice g i => b.fireNoting limits g i s.trail s.backtracks

/-- One turn of a search. -/
def stepSearch (b : Table C K) (limits : Limits) (s : NumberedSearch C K M) :
    Progress (NumberedSearch C K M) (Except Fault (Report C)) :=
  .orFault (b.advanceSearch limits s)

/-- Searches for an acceptance for at most the given number of turns. -/
def search (b : Table C K) (limits : Limits) (c : C) (turns : Nat) :
    Option (Except Fault (Report C)) :=
  match b.startSearch M limits c with
  | .error e => some (.error e)
  | .ok s => Loop.run (b.stepSearch limits) turns s

end Table

/-! ## Searches of the table of a machine -/

section Numbered

variable {m : Machine C K}

/-- The choice by numbers. -/
def Choice.numbered {n : Nat} (c : Choice (Fin n) M K) : Choice Nat M K :=
  { c with state := c.state.val }

/-- The trail by numbers. -/
def Trail.numbered {n : Nat} (t : Trail (Fin n) M K) : Trail Nat M K :=
  { t with choices := t.choices.map Choice.numbered }

/-- A choice is pushed by numbers like any other. -/
theorem Trail.numbered_push {n : Nat} (t : Trail (Fin n) M K) (c : Choice (Fin n) M K) :
    (t.push c).numbered = t.numbered.push c.numbered :=
  t.map_push Fin.val c

namespace Search

/-- The search by numbers. -/
def numbered (s : Search m M) : NumberedSearch C K M where
  config := s.config.numbered
  trail := s.trail.numbered
  backtracks := s.backtracks

/-- A search of the table begins like one of the machine. -/
theorem start_numbered (m : Machine C K) (limits : Limits) (c : C) :
    m.table.startSearch M limits c = .ok (start m M limits c).numbered := by
  rw [Table.startSearch, Configuration.start_numbered]
  rfl

variable [Rewind C M]

/-- Going back past a choice has no fault if there is a symbol to drop. -/
theorem restore_numbered {g : Configuration m} {c : Choice (Fin m.count) M K}
    (h : c.pushed = true → 0 < g.stack.size) :
    Table.restore g.numbered c.numbered = .ok (restore g c).numbered := by
  have hundo := Stack.checkedUndo_of_pos h c.popped
  change (g.stack.checkedUndo c.popped c.pushed).map _ = _
  rw [hundo]
  rfl

variable [BEq K] {limits : Limits}

/-- Firing an eligible transition has no fault and comes to the same. -/
theorem fire_numbered {g : Configuration m} {i : Fin g.transitions.length} (h : g.eligible i)
    (trail : Trail (Fin m.count) M K) (backtracks : Nat) :
    m.table.fireNoting limits g.numbered i.val trail.numbered backtracks =
      .ok ((fire limits g i trail backtracks).map numbered id) := by
  have hchoice : m.table.choiceOf g.numbered i.val = .ok (choiceOf (M := M) g i).numbered := by
    rw [Table.choiceOf, Configuration.stateAt_numbered]
    simp only [Except.bind, Configuration.transitionAt_numbered]
    rfl
  rw [Table.fireNoting, fire, Configuration.steps_numbered]
  cases limits.exceeded g.steps with
  | some o => rfl
  | none =>
    simp only [hchoice, Except.bind, Configuration.fire_numbered h, Except.map]
    rw [← Trail.numbered_push]
    rfl

/-- **Returning is the same by numbers,** and has no fault, where the stack is as high as the path
says. -/
theorem resume_numbered {reason : String} {trail : Trail (Fin m.count) M K} {backtracks n : Nat}
    {choices : List (Choice (Fin m.count) M K)} {g : Configuration m} (h : g.Level n)
    (hc : ∀ j c, choices[j]? = some c → c.depth + j + 1 = n ∧ c.NotedFor g.path) :
    m.table.resume limits reason trail.numbered backtracks (choices.map .numbered) g.numbered =
      .ok ((resume limits reason trail backtracks choices g).map numbered id) := by
  -- With each choice that is gone back past, the level falls by one move.
  induction choices generalizing g n with
  | nil => rfl
  | cons c choices ih =>
    obtain ⟨hdepth, hnoted⟩ := hc 0 c rfl
    have hn : n = c.depth + 1 := by omega
    subst hn
    obtain ⟨hlevel, hpos⟩ := level_restore h hnoted
    have hselect : m.table.select (restore g c).numbered (c.numbered.taken + 1) =
        .ok (((restore g c).select (c.taken + 1)).map Fin.val) :=
      Configuration.select_numbered _ _
    have hstate : m.table.stateAt c.numbered.state = .ok (m.stateInTable c.state) :=
      m.stateAt_table c.state
    rw [List.map_cons, Table.resume, restore_numbered hpos, resume]
    simp only [Except.bind, hselect, hstate]
    cases hs : (restore g c).select (c.taken + 1) with
    | none =>
      refine ih hlevel fun j d hd => ?_
      obtain ⟨hdepth', hnoted'⟩ := hc (j + 1) d hd
      exact ⟨by omega, hnoted'⟩
    | some i =>
      have hi : (returned (restore g c) c).eligible i :=
        (Configuration.select_eq_some_iff.1 hs).2.1
      exact fire_numbered hi { trail with choices := choices } (backtracks + 1)

variable [Input C] {s : Search m M}

/-- **A turn of a search is the same by numbers,** and has no fault. -/
theorem advance_numbered (h : s.config.Leveled) (haligned : s.trail.Aligned s.config.path) :
    m.table.advanceSearch limits s.numbered = .ok ((step limits s).map numbered id) := by
  have hturn : m.table.turn s.numbered.config = .ok s.config.turn.numbered := s.config.turn_numbered
  rw [Table.advanceSearch, hturn, step]
  simp only [Except.bind]
  cases ht : s.config.turn with
  | settled g o =>
    cases o with
    | accepted => rfl
    | rejected reason =>
      have hplace := Configuration.place_of_turn_eq_settled ht
      have hpath : g.path = s.config.path := congrArg Place.path hplace
      refine resume_numbered (h.of_place hplace) fun j c hc => ?_
      rw [hpath]
      exact haligned.choice j c hc
  | choice g i =>
    obtain ⟨-, hi⟩ := Configuration.of_turn_eq_choice ht
    exact fire_numbered (Configuration.select_eq_some_iff.1 hi).2.1 s.trail s.backtracks

variable {c : C} {n : Nat}

/-- No turn of a search has a fault, and each comes to the same. -/
theorem step_numbered (h : Loop.after (step limits) n (start m M limits c) = some s) :
    m.table.stepSearch limits s.numbered = (step limits s).map numbered .ok := by
  rw [Table.stepSearch, advance_numbered (leveled_of_after h) (aligned_of_after h)]
  cases step limits s <;> rfl

end Search
end Numbered

/-- **A search of a machine is the same by numbers,** and has no fault. -/
theorem Machine.search_table [Input C] [Rewind C M] [BEq K] (m : Machine C K) (limits : Limits)
    (c : C) (turns : Nat) :
    m.table.search (M := M) limits c turns = (m.search (M := M) limits c turns).map .ok := by
  rw [Table.search, Search.start_numbered]
  exact Loop.run_map (fun _ s hs => Search.step_numbered hs) turns

/-- What is the result of a machine is not a fault. -/
theorem ne_error_of_map_ok {ρ : Type u} {r : Option ρ} {e : Fault} :
    (r.map .ok : Option (Except Fault ρ)) ≠ some (.error e) := by
  cases r <;> simp

/-- The initial state and every target are states of the table, the target the one of its name. -/
structure Table.Closed (b : Table C K) : Prop where
  initial : b.initial < b.states.length
  target : ∀ s ∈ b.states, ∀ t ∈ s.transitions, ∃ h : t.target.number < b.states.length,
    b.states[t.target.number].name = t.target.name

namespace Machine

variable (m : Machine C K)

/-- The table has as many states as the machine. -/
@[simp] theorem length_states_table : m.table.states.length = m.count := by
  simp [table]

/-- A state stands in the table at its own number. -/
theorem getElem_states_table (i : Fin m.count) (h : i.val < m.table.states.length) :
    m.table.states[i.val] = m.stateInTable i := by
  simp [table, stateInTable, state]

/-- The table of a machine refers to nothing that is not in it. -/
theorem closed_table : m.table.Closed := by
  refine ⟨?_, fun s hs t ht => ?_⟩
  · rw [length_states_table]
    exact m.initial.isLt
  · obtain ⟨r, -, rfl⟩ := List.mem_map.1 hs
    obtain ⟨u, -, rfl⟩ := List.mem_map.1 ht
    have hlt : u.target.val < m.table.states.length := by
      rw [length_states_table]
      exact u.target.isLt
    exact ⟨hlt, congrArg State.name (m.getElem_states_table u.target hlt)⟩

end Machine

/-- **No run refers to what is not there.** Let a table be put together from any declarations, with
any placeholder for the targets; then it does not depend on the placeholder, its initial state and
all its targets are its states, and whatever the context and the limits are:

* At the head of every turn of a direct run, the number of the current state is that of a state, and
  so it is for a search and each choice on its trail.
* No run and no search has a fault, of whatever kind: it looks up no state and no transition that is
  not there, when it enters, selects, fires, decides at an impasse or returns; it fires no
  transition that pops unless the symbol is on top of the stack; and it drops no symbol from an
  empty stack.
* Runs and searches report what those of the machine do which the declarations make. -/
theorem tabulate_in_range [Input C] [Rewind C M] [BEq K] (l : List (Declaration C K))
    (placeholder : Nat) {b : Table C K}
    (hb : (Draft.ofDeclarations l).tabulate placeholder = .ok b) (limits : Limits) (c : C) :
    b.Closed ∧ (∀ p, (Draft.ofDeclarations l).tabulate p = .ok b) ∧
    (∃ g, b.start c = .ok g ∧ ∀ n g', Loop.after (b.step limits) n g = some g' →
      g'.state < b.states.length) ∧
    (∃ s, b.startSearch M limits c = .ok s ∧ ∀ n s', Loop.after (b.stepSearch limits) n s = some s' →
      s'.config.state < b.states.length ∧ ∀ d ∈ s'.trail.choices, d.state < b.states.length) ∧
    (∀ turns e, b.run limits c turns ≠ some (.error e)) ∧
    (∀ turns e, b.search (M := M) limits c turns ≠ some (.error e)) ∧
    ∃ m, (Draft.ofDeclarations l).build = .ok m ∧ ∀ turns,
      b.run limits c turns = (m.run limits c turns).map .ok ∧
      b.search (M := M) limits c turns = (m.search (M := M) limits c turns).map .ok := by
  generalize Draft.ofDeclarations l = d at hb ⊢
  obtain ⟨m, hm, rfl⟩ : ∃ m, d.build = .ok m ∧ m.table = b := by
    rw [Draft.tabulate_eq_build] at hb
    cases hd : d.build with
    | error e =>
      rw [hd] at hb
      cases hb
    | ok m =>
      rw [hd] at hb
      exact ⟨m, rfl, Except.ok.inj hb⟩
  have hrun := m.run_table limits c
  have hsearch := m.search_table (M := M) limits c
  refine ⟨m.closed_table, fun p => ?_, ⟨_, Configuration.start_numbered m c, fun n g' hg => ?_⟩,
    ⟨_, Search.start_numbered m limits c, fun n s' hs => ?_⟩, fun turns e he => ?_,
    fun turns e he => ?_, m, hm, fun turns => ⟨hrun turns, hsearch turns⟩⟩
  · rw [Draft.tabulate_eq_build, hm]
    rfl
  · rw [Loop.after_map (fun _ g _ => g.step_numbered) n] at hg
    obtain ⟨g, -, rfl⟩ := Option.map_eq_some_iff.1 hg
    rw [m.length_states_table]
    exact g.state.isLt
  · rw [Loop.after_map (fun _ s hs => Search.step_numbered hs) n] at hs
    obtain ⟨s, -, rfl⟩ := Option.map_eq_some_iff.1 hs
    rw [m.length_states_table]
    refine ⟨s.config.state.isLt, fun d hd => ?_⟩
    obtain ⟨d, -, rfl⟩ := List.mem_map.1 hd
    exact d.state.isLt
  · rw [hrun] at he
    exact ne_error_of_map_ok he
  · rw [hsearch] at he
    exact ne_error_of_map_ok he

namespace Draft

/-- A machine for words over `a` of even length. The state `push` is declared again. -/
def pairs : List (Declaration (Tape Char) Char) :=
  [.initial "push",
    .state ((State.named "push").transition (.towards "nowhere")),
    .state (((State.named "shift").effect Palindrome.eat).transition (.towards "push")),
    .state ((State.named "push")
      |>.transition ((Transition.onSymbol "shift" 'a').pushing 'a')
      |>.transition (.towards "match")),
    .state ((State.named "match").asAccepting.transition
      ((Transition.onSymbol "reduce" 'a').popping 'a')),
    .state (((State.named "reduce").effect Palindrome.eat).transition (.towards "match"))]

/-- The greatest number of 64 bits is replaced by the positions of the targets. A search on `aa` pops
what it has pushed, after it has returned. -/
theorem pairs_in_range :
    ∃ b, (ofDeclarations pairs).tabulate (2 ^ 64 - 1) = .ok b ∧ b.Closed ∧
      (b.states.map fun s => s.transitions.map fun t => t.target.number) = [[1, 2], [0], [3], [2]] ∧
      (∃ r, b.search (M := Nat) {} (Tape.ofString "aa") 9 = some (.ok r) ∧ r.outcome = .accepted ∧
        r.backtracks = 1) ∧
      ∀ turns e, b.search (M := Nat) {} (Tape.ofString "aa") turns ≠ some (.error e) := by
  have htable : ∃ b, (ofDeclarations pairs).tabulate (2 ^ 64 - 1) = .ok b ∧
      (b.states.map fun s => s.transitions.map fun t => t.target.number) =
        [[1, 2], [0], [3], [2]] ∧
      ∃ r, b.search (M := Nat) {} (Tape.ofString "aa") 9 = some (.ok r) ∧ r.outcome = .accepted ∧
        r.backtracks = 1 := ⟨_, rfl, rfl, _, rfl, rfl, rfl⟩
  obtain ⟨b, hb, hnumbers, hsearch⟩ := htable
  obtain ⟨hclosed, -, -, -, -, hfault, -⟩ :=
    tabulate_in_range (M := Nat) pairs (2 ^ 64 - 1) hb {} (Tape.ofString "aa")
  exact ⟨b, hb, hclosed, hnumbers, hsearch, hfault⟩

/-- A layout whose targets are not resolved is not fit to run. -/
example : (⟨"pairs", ((ofDeclarations pairs).layout 99).states, [], 0, .acceptAtEnd⟩ :
    Table _ _).run {} (Tape.ofString "aa") 2 = some (.error (.noState 99)) := rfl

end Draft
end StateMachine
