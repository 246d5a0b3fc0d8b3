/-
# The order of declaration

The row of a draft has its states in the order in which they are declared. If each name is declared
once, another order changes the places of the states, but neither what is wrong with the draft
(`Draft.faultsOf_perm`) nor the state that stands for a name. So what is built from one order is
what is built from another with its states renumbered (`Machine.Realizes.exists_renumbering`), and
no run can tell them apart.
-/

import StateMachine.Proofs.Renumbering
import StateMachine.Puzzle.Palindrome

namespace StateMachine

universe u v w x y

variable {C : Type u} {K : Type v} {M : Type w}

namespace State

variable {σ : Type w} {τ : Type x} {υ : Type y}

/-- Targets that are given anew twice are given anew by both ways of doing so in turn. -/
theorem retarget_retarget (f : σ → τ) (g : τ → υ) (s : State C K σ) :
    (s.retarget f).retarget g = s.retarget fun i => g (f i) := by
  simp only [retarget, List.map_map]
  rfl

/-- If targets are given in a way that tells them apart, then so are transitions. -/
theorem withTarget_injective {f : σ → τ} (hf : Function.Injective f) :
    Function.Injective fun t : Transition C K σ => t.withTarget (f t.target) := by
  rintro ⟨_, _, _, _, _⟩ ⟨_, _, _, _, _⟩ h
  simp only [Transition.withTarget, Transition.mk.injEq] at h
  obtain ⟨htarget, rfl, rfl, rfl, rfl⟩ := h
  rw [hf htarget]

/-- So are states. -/
theorem retarget_injective {f : σ → τ} (hf : Function.Injective f) :
    Function.Injective (retarget (C := C) (K := K) f) := by
  rintro ⟨_, _, _, _, transitions⟩ ⟨_, _, _, _, transitions'⟩ h
  simp only [retarget, mk.injEq] at h
  obtain ⟨rfl, rfl, rfl, rfl, htransitions⟩ := h
  rw [List.map_injective_iff.2 (withTarget_injective hf) htransitions]

end State

namespace Machine.Realizes

variable {m m' : Machine C K} {row row' : List (DraftState C K)} {initial : String}

/-- The states of the row are those of the machine. -/
theorem mem_row_iff (h : m.Realizes row initial) {s : DraftState C K} :
    s ∈ row ↔ ∃ i, (m.state i).retarget m.stateName = s := by
  rw [List.mem_iff_getElem]
  constructor
  · rintro ⟨k, hk, rfl⟩
    exact ⟨_, (h.getElem_row hk).symm⟩
  · rintro ⟨i, rfl⟩
    have hi : i.val < row.length := by
      rw [h.length_row]
      exact i.isLt
    exact ⟨i, hi, h.getElem_row hi⟩

/-- **Machines that have their states in another order** differ by a renumbering. -/
theorem exists_renumbering (h : m.Realizes row initial) (h' : m'.Realizes row' initial)
    (hrow : row.Perm row') (hpolicy : m'.policy = m.policy) : Nonempty (m.Renumbering m') := by
  have hsame : ∀ i, ∃ j, (m'.state j).retarget m'.stateName = (m.state i).retarget m.stateName :=
    fun i => h'.mem_row_iff.1 (hrow.mem_iff.1 (h.mem_row_iff.2 ⟨i, rfl⟩))
  choose place hplace using hsame
  have hname : ∀ i, m'.stateName (place i) = m.stateName i :=
    fun i => congrArg State.name (hplace i)
  refine ⟨{ place, state := fun i => ?_, initial := ?_, policy := hpolicy }⟩
  · apply State.retarget_injective m'.stateName_injective
    rw [hplace, State.retarget_retarget, funext hname]
  · apply m'.stateName_injective
    rw [h'.initial, hname, h.initial]

end Machine.Realizes

namespace Draft

section Row

variable {σ : Type x}

/-- States with distinct names are put one behind the other. -/
theorem foldl_place_of_nodup {l row : List (State C K σ)}
    (h : ((row ++ l).map State.name).Nodup) : l.foldl place row = row ++ l := by
  induction l generalizing row with
  | nil => exact (List.append_nil row).symm
  | cons s l ih =>
    have hs : s.name ∉ row.map State.name := by
      rw [List.map_append, List.map_cons, List.nodup_append] at h
      exact fun hmem => h.2.2 s.name hmem s.name List.mem_cons_self rfl
    have hplace : place row s = row ++ [s] := if_neg hs
    have happend : row ++ s :: l = row ++ [s] ++ l := by
      rw [List.append_assoc, List.singleton_append]
    rw [happend] at h ⊢
    rw [List.foldl_cons, hplace, ih h]

/-- All states survive if no name is declared twice. -/
theorem survivors_of_nodup {d : Draft C K} (h : (d.states.map State.name).Nodup) :
    d.survivors = d.states :=
  foldl_place_of_nodup h

end Row

section Faults

variable {names names' : List String} {row row' : List (DraftState C K)}

/-- What is wrong with an initial state and with targets depends only on which names there are. -/
theorem initialFaults_congr (h : ∀ name, name ∈ names ↔ name ∈ names') (initial : Option String) :
    initialFaults names initial = initialFaults names' initial := by
  cases initial with
  | none => rfl
  | some name => simp only [initialFaults, h]

/-- Which targets are undeclared depends on the set of names only, not on their order. -/
theorem targetFaults_congr (h : ∀ name, name ∈ names ↔ name ∈ names') (s : DraftState C K) :
    targetFaults names s = targetFaults names' s := by
  simp only [targetFaults, h]

/-- **The order of a row** is that of its faults, and does not matter otherwise. -/
theorem faultsOf_perm (h : row.Perm row') (initial : Option String) :
    (faultsOf initial row).Perm (faultsOf initial row') := by
  have hnames : ∀ name, name ∈ row.map State.name ↔ name ∈ row'.map State.name :=
    fun name => (h.map State.name).mem_iff
  rw [faultsOf, faultsOf, initialFaults_congr hnames, funext (targetFaults_congr hnames)]
  exact (h.flatMap_right _).append_left _

end Faults

end Draft

/-- **Runs do not depend on the order in which states are declared.** Let the states of a draft have
distinct names, and let another draft have the same ones in another order, and the same name,
initial state and policy.

* Building the one fails exactly if building the other does, with the same faults up to their order.
* If machines are built, then on every context and with every limits, the direct runs of both have
  the same report or none after any number of turns, and so have their searches: the same outcome,
  path, context, numbers of steps and backtracks, and notices. -/
theorem reordered_alike [Input C] [Rewind C M] [BEq K] (d : Draft C K)
    {states : List (DraftState C K)} (horder : states.Perm d.states)
    (hnames : (d.states.map State.name).Nodup) :
    ((∃ e, { d with states }.build = .error e) ↔ ∃ e, d.build = .error e) ∧
    (∀ e e', d.build = .error e → { d with states }.build = .error e' →
      e'.faults.Perm e.faults) ∧
    ∀ m m', d.build = .ok m → { d with states }.build = .ok m' →
      m'.name = m.name ∧ ∀ limits c turns, m'.run limits c turns = m.run limits c turns ∧
        m'.search (M := M) limits c turns = m.search (M := M) limits c turns := by
  have hnames' : (states.map State.name).Nodup := (horder.map State.name).nodup_iff.2 hnames
  have hrow : d.survivors = d.states := Draft.survivors_of_nodup hnames
  have hrow' : { d with states }.survivors = states := Draft.survivors_of_nodup hnames'
  have hfaults := Draft.faultsOf_perm horder d.initial
  refine ⟨?_, fun e e' he he' => ?_, fun m m' hm hm' => ?_⟩
  · rw [Draft.build_fails_iff, Draft.build_fails_iff, hrow, hrow', not_iff_not]
    exact ⟨fun h => List.nil_perm.1 (h ▸ hfaults), fun h => List.perm_nil.1 (h ▸ hfaults)⟩
  · rw [Draft.faults_of_build_eq_error he, Draft.faults_of_build_eq_error he', hrow, hrow']
    exact hfaults
  · obtain ⟨initial, hi, hrealizes⟩ := Draft.realizes_of_build hm
    obtain ⟨initial', hi', hrealizes'⟩ := Draft.realizes_of_build hm'
    obtain ⟨hname, hpolicy⟩ := Draft.name_policy_of_build hm
    obtain ⟨hname', hpolicy'⟩ := Draft.name_policy_of_build hm'
    obtain rfl : initial = initial' := Option.some.inj (hi.symm.trans hi')
    rw [hrow] at hrealizes
    rw [hrow'] at hrealizes'
    obtain ⟨r⟩ := hrealizes.exists_renumbering hrealizes' horder.symm (hpolicy'.trans hpolicy.symm)
    exact ⟨hname'.trans hname.symm, fun limits c turns => ⟨r.run_eq limits c turns,
      r.search_eq limits c turns⟩⟩

namespace Draft

/-- A machine for words over `a` of even length, each of its states declared once. -/
def halves : Draft (Tape Char) Char where
  initial := some "push"
  states := [
    (State.named "push")
      |>.transition ((Transition.onSymbol "shift" 'a').pushing 'a')
      |>.transition (.towards "match"),
    ((State.named "shift").effect Palindrome.eat).transition (.towards "push"),
    (State.named "match").asAccepting.transition
      ((Transition.onSymbol "reduce" 'a').popping 'a'),
    ((State.named "reduce").effect Palindrome.eat).transition (.towards "match")]

/-- The same without the two states to which the others lead by symbols. -/
def torn : Draft (Tape Char) Char :=
  { halves with states := halves.states.filter fun s => s.name ∈ ["push", "match"] }

/-- With its states declared the other way round, a machine is put together in another way and finds
the same, and what is wrong with a draft is told in another order. -/
theorem reversed_halves_alike :
    (∃ m m', halves.build = .ok m ∧
      { halves with states := halves.states.reverse }.build = .ok m' ∧
      m.initial.val = 0 ∧ m'.initial.val = 3 ∧
      ∃ r, m'.search (M := Nat) {} (Tape.ofString "aa") 9 = some r ∧ r.outcome = .accepted ∧
        r.backtracks = 1) ∧
    ∃ e e', torn.build = .error e ∧
      { torn with states := torn.states.reverse }.build = .error e' ∧
      e.faults = [.undeclaredTarget "push" "shift", .undeclaredTarget "match" "reduce"] ∧
      e'.faults = [.undeclaredTarget "match" "reduce", .undeclaredTarget "push" "shift"] ∧
      e'.faults.Perm e.faults := by
  refine ⟨?_, ?_⟩
  · have hbuild : ∃ m, halves.build = .ok m ∧ m.initial.val = 0 ∧
        ∃ r, m.search (M := Nat) {} (Tape.ofString "aa") 9 = some r ∧ r.outcome = .accepted ∧
          r.backtracks = 1 := ⟨_, rfl, rfl, _, rfl, rfl, rfl⟩
    have hbuild' : ∃ m', { halves with states := halves.states.reverse }.build = .ok m' ∧
        m'.initial.val = 3 := ⟨_, rfl, rfl⟩
    obtain ⟨m, hm, hinitial, hsearch⟩ := hbuild
    obtain ⟨m', hm', hinitial'⟩ := hbuild'
    obtain ⟨-, -, halike⟩ := reordered_alike (M := Nat) halves (List.reverse_perm _) (by decide)
    obtain ⟨-, hruns⟩ := halike m m' hm hm'
    refine ⟨m, m', hm, hm', hinitial, hinitial', ?_⟩
    rw [(hruns _ _ _).2]
    exact hsearch
  · obtain ⟨hfails, hfaults, -⟩ :=
      reordered_alike (M := Nat) torn (List.reverse_perm _) (by decide)
    have hbuild : ∃ e, torn.build = .error e ∧
        e.faults = [.undeclaredTarget "push" "shift", .undeclaredTarget "match" "reduce"] :=
      ⟨_, rfl, rfl⟩
    obtain ⟨e, he, hlist⟩ := hbuild
    obtain ⟨e', he'⟩ := hfails.2 ⟨e, he⟩
    exact ⟨e, e', he, he', hlist, faults_of_build_eq_error he', hfaults e e' he he'⟩

end Draft
end StateMachine
