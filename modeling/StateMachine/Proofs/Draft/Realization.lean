/-
# Every machine is built from its names

A row of named states, with the name of an initial one among them, is realized by one machine at most
(`Machine.Realizes.unique`), apart from its own name and its policy. So a draft is built into a
machine just if the machine realizes what survives in the draft (`Draft.build_eq_ok_iff`).

Each machine realizes the row of its own states with their targets given by name. So all machines are
built (`Machine.build_draft`), and what is proved of every machine is proved of those that are built,
and the other way round.
-/

import StateMachine.Proofs.Draft.Order

namespace StateMachine

universe u v

variable {C : Type u} {K : Type v}

namespace Machine

variable {m m' : Machine C K} {row : List (DraftState C K)} {initial : String}

namespace Realizes

/-- Nothing is wrong with a row that is realized. -/
theorem faultsOf_eq_nil (h : m.Realizes row initial) : Draft.faultsOf (some initial) row = [] := by
  by_contra hne
  rcases Draft.faultsOf_ne_nil_iff.1 hne with hnone | ⟨name, hname, hmem⟩ | ⟨s, hs, t, ht, hmem⟩
  · cases hnone
  · obtain rfl := Option.some.inj hname
    rw [h.names] at hmem
    exact hmem (mem_names_iff.2 ⟨m.initial, h.initial⟩)
  · obtain ⟨i, rfl⟩ := h.mem_row_iff.1 hs
    obtain ⟨t, -, rfl⟩ := List.mem_map.1 ht
    rw [h.names] at hmem
    exact hmem (mem_names_iff.2 ⟨t.target, rfl⟩)

/-- **A row is realized in one way,** up to the name of the machine and its policy. -/
theorem unique (h : m.Realizes row initial) (h' : m'.Realizes row initial)
    (hname : m.name = m'.name) (hpolicy : m.policy = m'.policy) : m = m' := by
  have hcount : m.count = m'.count := h.length_row.symm.trans h'.length_row
  obtain ⟨name, count, states, first, policy, hnodup⟩ := m
  obtain ⟨name', count', states', first', policy', hnodup'⟩ := m'
  obtain rfl : count = count' := hcount
  obtain rfl : name = name' := hname
  obtain rfl : policy = policy' := hpolicy
  let m : Machine C K := ⟨name, count, states, first, policy, hnodup⟩
  let m' : Machine C K := ⟨name, count, states', first', policy, hnodup'⟩
  have hrow : ∀ i : Fin count,
      (m.state i).retarget m.stateName = (m'.state i).retarget m'.stateName := by
    intro i
    have hi : i.val < row.length := h.length_row.symm ▸ i.isLt
    exact (h.getElem_row hi).symm.trans (h'.getElem_row hi)
  have hnames : m.stateName = m'.stateName := by
    funext i
    have hname := congrArg State.name (hrow i)
    exact hname
  -- Names tell states apart, so states that agree by names agree by positions.
  obtain rfl : states = states' := by
    refine Vector.ext fun k hk => State.retarget_injective m'.stateName_injective ?_
    have hk := hrow ⟨k, hk⟩
    rwa [hnames] at hk
  obtain rfl : first = first' := m'.stateName_injective (h.initial.trans h'.initial.symm)
  rfl

end Realizes

/-- The draft that declares the states of a machine, their targets given by name. -/
def draft (m : Machine C K) : Draft C K where
  name := some m.name
  initial := some (m.stateName m.initial)
  states := m.states.toList.map (State.retarget m.stateName)
  policy := m.policy

/-- A machine realizes its own states. -/
theorem realizes_draft (m : Machine C K) :
    m.Realizes m.draft.survivors (m.stateName m.initial) := by
  have hnames : m.draft.states.map State.name = m.states.toList.map State.name := List.map_map
  rw [Draft.survivors_of_nodup (hnames ▸ m.names_nodup)]
  refine ⟨rfl, ?_, rfl⟩
  rw [hnames]
  simp only [draft, List.map_map]
  refine List.map_congr_left fun s _ => ?_
  simp only [Function.comp_apply, State.retarget, List.map_map]
  exact List.map_congr_left fun t _ => (m.idxOf_stateName t.target).symm

end Machine

/-- **What is built is what realizes the surviving states.** -/
theorem Draft.build_eq_ok_iff {d : Draft C K} {m : Machine C K} :
    d.build = .ok m ↔ ∃ initial, d.initial = some initial ∧ m.Realizes d.survivors initial ∧
      m.name = d.name.getD "machine" ∧ m.policy = d.policy := by
  constructor
  · intro h
    obtain ⟨initial, hinitial, hrealizes⟩ := realizes_of_build h
    exact ⟨initial, hinitial, hrealizes, name_policy_of_build h⟩
  · rintro ⟨initial, hinitial, hrealizes, hname, hpolicy⟩
    cases hb : d.build with
    | error e =>
      obtain ⟨hne, -⟩ := of_build_eq_error hb
      rw [hinitial] at hne
      exact absurd hrealizes.faultsOf_eq_nil hne
    | ok m' =>
      obtain ⟨initial', hinitial', hrealizes'⟩ := realizes_of_build hb
      obtain ⟨hname', hpolicy'⟩ := name_policy_of_build hb
      obtain rfl := Option.some.inj (hinitial.symm.trans hinitial')
      rw [hrealizes.unique hrealizes' (hname.trans hname'.symm) (hpolicy.trans hpolicy'.symm)]

/-- **Every machine is built from its own declaration.** -/
theorem Machine.build_draft (m : Machine C K) : m.draft.build = .ok m :=
  Draft.build_eq_ok_iff.2 ⟨_, rfl, m.realizes_draft, rfl, rfl⟩

end StateMachine
