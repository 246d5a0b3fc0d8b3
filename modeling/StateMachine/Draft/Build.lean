/-
# From a draft to a machine

Building resolves every name of a draft to a position among its surviving states. All faults are
collected before building fails: first the one of the initial state, then those of the transitions,
state by state in their order.

A *check* is a value or the faults that stand in its way. `Check.both` and `Check.all` put checks
together without losing a fault, so what a state or a row of states resolves to and what is wrong
with it come from one definition.
-/

import StateMachine.Draft.Basic
import StateMachine.Draft.Fault
import StateMachine.Machine

namespace StateMachine

universe u v w

/-- A value, or every fault found on the way to it. -/
abbrev Check (α : Type u) := Except (List BuildError) α

namespace Check

variable {α : Type u} {β : Type v}

/-- The faults of a check; a value has none. -/
def faults : Check α → List BuildError
  | .ok _ => []
  | .error l => l

/-- Both values, or the faults of both checks. -/
def both (x : Check α) (y : Check β) : Check (α × β) :=
  match x, y with
  | .ok a, .ok b => .ok (a, b)
  | x, y => .error (x.faults ++ y.faults)

/-- Checks every element of a list. -/
def all (f : α → Check β) : List α → Check (List β)
  | [] => .ok []
  | a :: l => (both (f a) (all f l)).map fun r => r.1 :: r.2

/-- Two checks that pass together pass one by one. -/
theorem both_eq_ok {x : Check α} {y : Check β} {r : α × β} (h : both x y = .ok r) :
    x = .ok r.1 ∧ y = .ok r.2 := by
  cases x <;> cases y <;> simp_all [both]
  subst h
  exact ⟨rfl, rfl⟩

/-- A function that every passed check keeps is kept along the list. -/
theorem map_eq_of_all {γ : Type w} {f : α → Check β} {p : α → γ} {q : β → γ}
    (hf : ∀ a b, f a = .ok b → q b = p a) {l : List α} {r : List β} (h : all f l = .ok r) :
    r.map q = l.map p := by
  induction l generalizing r with
  | nil => simp only [all, Except.ok.injEq] at h; subst h; rfl
  | cons a l ih =>
    simp only [all] at h
    cases hb : both (f a) (all f l) with
    | error e => simp [hb, Except.map] at h
    | ok s =>
      obtain ⟨h₁, h₂⟩ := both_eq_ok hb
      simp only [hb, Except.map, Except.ok.injEq] at h
      subst h
      simp [hf _ _ h₁, ih h₂]

end Check

namespace Draft

variable {C : Type u} {K : Type v}

/-- The position of a name in a list of names. -/
def locate (names : List String) (name : String) : Option (Fin names.length) :=
  names.findFinIdx? (· == name)

/-- Resolves the initial state. -/
def checkInitial (names : List String) : Option String → Check (Fin names.length)
  | none => .error [.missingInitial]
  | some name =>
    match locate names name with
    | none => .error [.unknownInitial name]
    | some i => .ok i

/-- Resolves the target of a transition that leaves the state `source`. -/
def checkTransition (names : List String) (source : String) (t : Transition C K String) :
    Check (Transition C K (Fin names.length)) :=
  match locate names t.target with
  | none => .error [.undeclaredTarget source t.target]
  | some i => .ok (t.withTarget i)

/-- Resolves the targets of a state's transitions. -/
def checkState (names : List String) (s : DraftState C K) :
    Check (State C K (Fin names.length)) :=
  (Check.all (checkTransition names s.name) s.transitions).map fun transitions =>
    { name := s.name, accepting := s.accepting, action := s.action, onImpasse := s.onImpasse,
      transitions }

/-- A state keeps its name when its targets are resolved. -/
theorem name_of_checkState {names : List String} {s : DraftState C K}
    {r : State C K (Fin names.length)} (h : checkState names s = .ok r) : r.name = s.name := by
  unfold checkState at h
  cases hc : Check.all (checkTransition names s.name) s.transitions with
  | error e => simp [hc, Except.map] at h
  | ok l => simp only [hc, Except.map, Except.ok.injEq] at h; subst h; rfl

/-- Resolves the initial state and every state of the row. -/
def check (d : Draft C K) :
    Check (Fin d.names.length × List (State C K (Fin d.names.length))) :=
  Check.both (checkInitial d.names d.initial) (Check.all (checkState d.names) d.survivors)

/-- A row that passed has the names of the surviving states. -/
theorem names_of_check {d : Draft C K} {i : Fin d.names.length}
    {l : List (State C K (Fin d.names.length))} (h : d.check = .ok (i, l)) :
    l.map State.name = d.names :=
  Check.map_eq_of_all (fun _ _ => name_of_checkState) (Check.both_eq_ok h).2

/-- The machine that a draft declares, or all that is wrong with the draft. A machine that was
given no name is called `machine`. -/
def build (d : Draft C K) : Except BuildError (Machine C K) :=
  match h : d.check with
  | .error faults => .error (.ofFaults faults)
  | .ok (initial, states) =>
    have names_eq := names_of_check h
    .ok
      { name := d.name.getD "machine"
        count := d.names.length
        states := ⟨states.toArray, by simpa using congrArg List.length names_eq⟩
        initial
        policy := d.policy
        names_nodup := by simpa [names_eq, Vector.toList] using d.nodup_names }

end Draft
end StateMachine
