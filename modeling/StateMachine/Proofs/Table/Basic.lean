/-
# Tables: machines by numbers

A machine refers to its states by positions of its row, so that no reference can be wrong. A *table*
refers to them by plain numbers. It is laid out while states are declared, with an index of the
names; a target has only a placeholder for its number until every name is resolved, and a state that
is declared again is written over (`Draft.tabulate`).

So nothing in the form of a table keeps its numbers in range, nor the placeholder from staying. But a
table is put together exactly when a machine is built, and it is the table of that machine,
whatever the placeholder was (`Draft.tabulate_eq_build`). The table keeps the index, and it finds
the names there that the machine finds in its row (`Draft.find?_of_tabulate`).
-/

import StateMachine.Proofs.Draft.Resolution

namespace StateMachine

universe u v

variable {C : Type u} {K : Type v}

/-- The target of a transition in a table: the name that was declared, and a number. -/
structure Target where
  name : String
  number : Nat
  deriving DecidableEq, Repr

/-- A target that has been declared but not resolved. -/
def Target.declared (placeholder : Nat) (name : String) : Target := ⟨name, placeholder⟩

/-- A target with its position among the names. -/
def Target.resolved (names : List String) (name : String) : Target := ⟨name, names.idxOf name⟩

/-- A machine whose states refer to one another by numbers. -/
structure Table (C : Type u) (K : Type v) where
  name : String
  states : List (State C K Target)
  /-- The names of the states with their numbers. -/
  index : List (String × Nat)
  initial : Nat
  policy : Policy C K

/-- The number of the state of the given name, from the index. -/
def Table.find? (b : Table C K) (name : String) : Option Nat := b.index.lookup name

/-- The states of a table that is being laid out, and the numbers of their names. -/
structure Layout (C : Type u) (K : Type v) where
  states : List (State C K Target) := []
  index : List (String × Nat) := []

namespace Layout

/-- Writes a state over the one of its name, or adds it at the end. -/
def put (l : Layout C K) (s : State C K Target) : Layout C K :=
  match l.index.lookup s.name with
  | some i => { l with states := l.states.set i s }
  | none => { states := l.states ++ [s], index := l.index ++ [(s.name, l.states.length)] }

/-- What is wrong with the choice of an initial state. -/
def initialFaults (l : Layout C K) : Option String → List BuildError
  | none => [.missingInitial]
  | some name => if (l.index.lookup name).isSome then [] else [.unknownInitial name]

/-- What is wrong with the targets of a state. -/
def targetFaults (l : Layout C K) (s : State C K Target) : List BuildError :=
  (s.transitions.filter fun t => (l.index.lookup t.target.name).isNone).map fun t =>
    .undeclaredTarget s.name t.target.name

/-- Writes the number of its target into a transition. -/
def resolve (l : Layout C K) (source : String) (t : Transition C K Target) :
    Except BuildError (Transition C K Target) :=
  match l.index.lookup t.target.name with
  | none => .error (.undeclaredTarget source t.target.name)
  | some number => .ok (t.withTarget { t.target with number })

/-- Writes the numbers of their targets into the transitions of a state. -/
def resolveState (l : Layout C K) (s : State C K Target) : Except BuildError (State C K Target) :=
  (s.transitions.mapM (l.resolve s.name)).map fun transitions => { s with transitions }

/-- The number of the initial state. -/
def resolveInitial (l : Layout C K) (initial : Option String) : Except BuildError Nat :=
  match initial.bind fun name => l.index.lookup name with
  | none => .error .missingInitial
  | some number => .ok number

end Layout

namespace Draft

/-- Lays out the states of a draft, the first one first. All targets have the placeholder. -/
def layout (placeholder : Nat) (d : Draft C K) : Layout C K :=
  d.states.foldl (fun l s => l.put (s.retarget (.declared placeholder))) {}

/-- The table that a draft declares, or all that is wrong with the draft. -/
def tabulate (placeholder : Nat) (d : Draft C K) : Except BuildError (Table C K) :=
  let l := d.layout placeholder
  match l.initialFaults d.initial ++ l.states.flatMap l.targetFaults with
  | [] =>
    match l.resolveInitial d.initial, l.states.mapM l.resolveState with
    | .error e, _ => .error e
    | .ok _, .error e => .error e
    | .ok initial, .ok states =>
      .ok { name := d.name.getD "machine", states, index := l.index, initial, policy := d.policy }
  | faults => .error (.ofFaults faults)

end Draft

/-- The machine by numbers. -/
def Machine.table (m : Machine C K) : Table C K where
  name := m.name
  states := m.states.toList.map (State.retarget fun i => ⟨m.stateName i, i.val⟩)
  index := (m.states.toList.map State.name).zipIdx
  initial := m.initial.val
  policy := m.policy

/-! ## The layout of a row -/

section Layout

/-- The number of a name among others that are counted from `k` on is its position there. -/
theorem lookup_zipIdx (names : List String) (name : String) (k : Nat) :
    (names.zipIdx k).lookup name = if name ∈ names then some (names.idxOf name + k) else none := by
  induction names generalizing k with
  | nil => rfl
  | cons a names ih =>
    rw [List.zipIdx_cons, List.lookup_cons]
    by_cases h : name = a
    · simp [h]
    · have ha : (name == a) = false := beq_false_of_ne h
      rw [ha, ih, List.idxOf_cons_ne _ (Ne.symm h)]
      simp only [List.mem_cons, h, false_or]
      split
      · congr 1
        omega
      · rfl

/-- Among distinct names, a state is written over at the position of its name. -/
theorem map_replace_eq_set {σ : Type*} {row : List (State C K σ)}
    (hrow : (row.map State.name).Nodup) {s : State C K σ} (hs : s.name ∈ row.map State.name) :
    (row.map fun t => if t.name = s.name then s else t) =
      row.set ((row.map State.name).idxOf s.name) s := by
  induction row with
  | nil => cases hs
  | cons a row ih =>
    obtain ⟨ha, hrow⟩ := List.nodup_cons.1 hrow
    by_cases h : a.name = s.name
    · have hrest : (row.map fun t => if t.name = s.name then s else t) = row := by
        refine (List.map_congr_left fun t ht => ?_).trans (List.map_id row)
        have hne : t.name ≠ s.name := fun e => ha (h ▸ e ▸ List.mem_map_of_mem ht)
        rw [if_neg hne]
        rfl
      rw [List.map_cons, if_pos h, hrest, List.map_cons, h, List.idxOf_cons_self]
      rfl
    · have hs' : s.name ∈ row.map State.name := by
        rcases List.mem_cons.1 hs with e | hs
        · exact absurd e.symm h
        · exact hs
      rw [List.map_cons, if_neg h, ih hrow hs', List.map_cons, List.idxOf_cons_ne _ h]
      rfl

/-- The layout of a row of states. -/
def layoutOf (placeholder : Nat) (row : List (DraftState C K)) : Layout C K where
  states := row.map (State.retarget (.declared placeholder))
  index := (row.map State.name).zipIdx

variable {placeholder : Nat} {row : List (DraftState C K)}

/-- The index of a layout gives the position of each name, and nothing for any other. -/
theorem lookup_layoutOf (name : String) : (layoutOf placeholder row).index.lookup name =
    if name ∈ row.map State.name then some ((row.map State.name).idxOf name) else none :=
  lookup_zipIdx _ name 0

/-- **Putting a state into a layout is placing it in the row.** -/
theorem put_layoutOf (hrow : (row.map State.name).Nodup) (s : DraftState C K) :
    (layoutOf placeholder row).put (s.retarget (.declared placeholder)) =
      layoutOf placeholder (Draft.place row s) := by
  have hname : (s.retarget (Target.declared placeholder)).name = s.name := rfl
  rw [Layout.put, hname, lookup_layoutOf]
  by_cases hs : s.name ∈ row.map State.name
  · have hplace := map_replace_eq_set hrow hs
    simp only [if_pos hs, layoutOf, Draft.names_place]
    rw [Draft.place, if_pos hs, hplace, List.map_set]
  · simp only [if_neg hs, layoutOf, Draft.names_place]
    rw [Draft.place, if_neg hs, List.map_append, List.zipIdx_append]
    simp

/-- **The layout of a draft is that of its row.** -/
theorem layout_eq (d : Draft C K) : d.layout placeholder = layoutOf placeholder d.survivors := by
  have hfold : ∀ (l row : List (DraftState C K)), (row.map State.name).Nodup →
      l.foldl (fun l s => l.put (s.retarget (.declared placeholder)))
        (layoutOf placeholder row) = layoutOf placeholder (l.foldl Draft.place row) := by
    intro l
    induction l with
    | nil => exact fun row _ => rfl
    | cons s l ih =>
      intro row hrow
      rw [List.foldl_cons, put_layoutOf hrow, ih _ (Draft.nodup_place hrow s), List.foldl_cons]
  exact hfold d.states [] List.nodup_nil

end Layout

/-! ## The table of a machine -/

section Tabulate

variable {placeholder : Nat} {row : List (DraftState C K)}

/-- A list whose elements all pass is passed. -/
theorem mapM_eq_ok {α β : Type u} {ε : Type v} {f : α → Except ε β} {g : α → β} {l : List α}
    (h : ∀ a ∈ l, f a = .ok (g a)) : l.mapM f = .ok (l.map g) := by
  induction l with
  | nil => rfl
  | cons a l ih =>
    rw [List.mapM_cons, h a List.mem_cons_self, ih fun b hb => h b (List.mem_cons_of_mem a hb)]
    rfl

/-- In the layout of a row, the faults are those of the row. -/
theorem faults_layoutOf (placeholder : Nat) (row : List (DraftState C K))
    (initial : Option String) :
    (layoutOf placeholder row).initialFaults initial ++
      (layoutOf placeholder row).states.flatMap (layoutOf placeholder row).targetFaults =
        Draft.faultsOf initial row := by
  have hinitial : (layoutOf placeholder row).initialFaults initial =
      Draft.initialFaults (row.map State.name) initial := by
    cases initial with
    | none => rfl
    | some name =>
      rw [Layout.initialFaults, lookup_layoutOf, Draft.initialFaults]
      by_cases h : name ∈ row.map State.name <;> simp [h]
  have htargets : ∀ s : DraftState C K,
      (layoutOf placeholder row).targetFaults (s.retarget (.declared placeholder)) =
        Draft.targetFaults (row.map State.name) s := by
    intro s
    simp only [Layout.targetFaults, lookup_layoutOf, Draft.targetFaults, State.retarget,
      List.filter_map, List.map_map]
    refine congrArg₂ _ rfl (List.filter_congr fun t _ => ?_)
    simp only [Function.comp_apply, Transition.withTarget, Target.declared]
    generalize row.map State.name = names
    by_cases h : t.target ∈ names <;> simp [h]
  rw [hinitial, Draft.faultsOf, layoutOf, List.flatMap_map]
  exact congrArg _ (List.flatMap_congr fun s _ => htargets s)

/-- A state whose targets are all in the row gets their positions. -/
theorem resolveState_layoutOf {s : DraftState C K}
    (hs : ∀ t ∈ s.transitions, t.target ∈ row.map State.name) :
    (layoutOf placeholder row).resolveState (s.retarget (.declared placeholder)) =
      .ok (s.retarget (.resolved (row.map State.name))) := by
  have hresolve : (s.retarget (Target.declared placeholder)).transitions.mapM
      ((layoutOf placeholder row).resolve s.name) =
        .ok (s.retarget (.resolved (row.map State.name))).transitions := by
    rw [State.retarget, List.mapM_map]
    refine mapM_eq_ok fun t ht => ?_
    have hlookup : (layoutOf placeholder row).index.lookup t.target =
        some ((row.map State.name).idxOf t.target) :=
      (lookup_layoutOf t.target).trans (if_pos (hs t ht))
    simp only [Function.comp_apply, Layout.resolve, Transition.withTarget, Target.declared, hlookup]
    rfl
  rw [Layout.resolveState]
  exact congrArg (Except.map _) hresolve

/-- The number of an initial state in the row is its position. -/
theorem resolveInitial_layoutOf {name : String} (h : name ∈ row.map State.name) :
    (layoutOf placeholder row).resolveInitial (some name) =
      .ok ((row.map State.name).idxOf name) := by
  rw [Layout.resolveInitial, Option.bind_some, lookup_layoutOf, if_pos h]

end Tabulate

namespace Machine

/-- The index of a machine's table has the position of each name in the row. -/
theorem find?_table (m : Machine C K) (name : String) :
    m.table.find? name = (m.find? name).map Fin.val := by
  have hlookup := lookup_zipIdx (m.states.toList.map State.name) name 0
  refine hlookup.trans ?_
  cases hfind : m.find? name with
  | some i =>
    obtain rfl := find?_eq_some_iff.1 hfind
    rw [if_pos (mem_names_iff.2 ⟨i, rfl⟩), idxOf_stateName]
    rfl
  | none =>
    refine if_neg fun hmem => ?_
    obtain ⟨i, hi⟩ := mem_names_iff.1 hmem
    exact find?_eq_none_iff.1 hfind i hi

/-- The table of a machine has the states of its row, with the positions of their targets. -/
theorem Realizes.states_table {m : Machine C K} {row : List (DraftState C K)} {initial : String}
    (h : m.Realizes row initial) :
    m.table.states = row.map (State.retarget (.resolved (row.map State.name))) := by
  have hnumber : ∀ i, Target.resolved (row.map State.name) (m.stateName i) = ⟨m.stateName i, i⟩ := by
    intro i
    rw [Target.resolved, h.names, idxOf_stateName]
  have hretarget : ∀ s : State C K (Fin m.count),
      (s.retarget m.stateName).retarget (Target.resolved (row.map State.name)) =
        s.retarget fun i => (⟨m.stateName i, i.val⟩ : Target) := by
    intro s
    simp only [State.retarget, List.map_map, ← hnumber]
    rfl
  have hstates := congrArg
    (List.map (State.retarget (Target.resolved (row.map State.name)))) h.states
  rw [List.map_map] at hstates
  rw [← hstates]
  exact List.map_congr_left fun s _ => (hretarget s).symm

end Machine

namespace Draft

variable {d : Draft C K} {m : Machine C K} {placeholder : Nat}

/-- **A draft is put into a table exactly when it is built,** and this is the table of what is built,
whatever placeholder the targets had. -/
theorem tabulate_eq_build (placeholder : Nat) (d : Draft C K) :
    d.tabulate placeholder = d.build.map Machine.table := by
  have hfaults := faults_layoutOf placeholder d.survivors d.initial
  cases hb : d.build with
  | error e =>
    obtain ⟨hne, rfl⟩ := of_build_eq_error hb
    rw [tabulate, layout_eq, hfaults]
    split
    · rename_i hnil
      exact absurd hnil hne
    · rfl
  | ok m =>
    have hnone := faultsOf_of_build hb
    obtain ⟨initial, hi, hm⟩ := realizes_of_build hb
    -- As there are no faults, every name that is looked up is in the index.
    have hclosed : initial ∈ d.survivors.map State.name ∧
        ∀ s ∈ d.survivors, ∀ t ∈ s.transitions, t.target ∈ d.survivors.map State.name := by
      have hno := mt faultsOf_ne_nil_iff.2 (not_not.2 hnone)
      simp only [not_or, not_exists, not_and, not_not, hi] at hno
      exact ⟨hno.2.1 initial rfl, hno.2.2⟩
    have hstates : (layoutOf placeholder d.survivors).states.mapM
        (layoutOf placeholder d.survivors).resolveState = .ok m.table.states := by
      rw [hm.states_table, layoutOf, List.mapM_map]
      exact mapM_eq_ok fun s hs => resolveState_layoutOf (hclosed.2 s hs)
    have hinitial : (layoutOf placeholder d.survivors).resolveInitial d.initial =
        .ok m.table.initial := by
      rw [hi, resolveInitial_layoutOf hclosed.1, hm.names, ← hm.initial, Machine.idxOf_stateName]
      rfl
    have hindex : (layoutOf placeholder d.survivors).index = m.table.index :=
      congrArg (List.zipIdx · 0) hm.names
    obtain ⟨hname, hpolicy⟩ := name_policy_of_build hb
    rw [tabulate, layout_eq, hfaults, hnone]
    simp only [hstates, hinitial, hindex, ← hname, ← hpolicy]
    rfl

/-- **The index that is kept finds the names** which the machine finds in its row, at their
positions there, and no others. -/
theorem find?_of_tabulate {b : Table C K} (hb : d.tabulate placeholder = .ok b)
    (hm : d.build = .ok m) (name : String) : b.find? name = (m.find? name).map Fin.val := by
  rw [tabulate_eq_build, hm] at hb
  obtain rfl := Except.ok.inj hb
  exact m.find?_table name

end Draft
end StateMachine
