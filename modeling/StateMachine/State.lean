/-
# States

A state has a name, an entry action, an ordered list of transitions, and may be accepting. The
action may change the context, and its *signal* says how the run goes on: look for a transition, or
stop at once. Where no transition is eligible the run has come to an *impasse*, and a handler of
the state, or the machine's policy, decides the outcome.
-/

import StateMachine.Transition

namespace StateMachine

universe u v w

/-- What an entry action asks the run to do next. -/
inductive Signal where
  /-- Look for an eligible transition. -/
  | proceed
  /-- Stop and accept. -/
  | accept
  /-- Reject, for the given reason. A search takes this as a request to try another way. -/
  | reject (reason : String)
  deriving DecidableEq, Repr

/-- How a run ends. -/
inductive Outcome where
  | accepted
  | rejected (reason : String)
  deriving DecidableEq, Repr

/-- Why a run was rejected. -/
def Outcome.reason? : Outcome → Option String
  | .accepted => none
  | .rejected r => some r

/-- The outcome is an acceptance. -/
def Outcome.isAccepted : Outcome → Bool
  | .accepted => true
  | .rejected _ => false

/-- What a handler is told about a run that is stuck. -/
structure Impasse (K : Type v) where
  state : String
  accepting : Bool
  stack : Stack K

/-- Decides the outcome of a run that is stuck. It may change the context. -/
abbrev Handler (C : Type u) (K : Type v) := C → Impasse K → C × Outcome

/-- A named state; `σ` is the type of its transitions' targets. -/
structure State (C : Type u) (K : Type v) (σ : Type w) where
  name : String
  accepting : Bool := false
  /-- Runs each time the state is entered. -/
  action : C → Stack K → C × Signal := fun c _ => (c, .proceed)
  /-- Decides in place of the machine's policy when no transition is eligible. -/
  onImpasse : Option (Handler C K) := none
  /-- The outgoing transitions, in the order in which they are tried. -/
  transitions : List (Transition C K σ) := []

namespace State

variable {C : Type u} {K : Type v} {σ : Type w}

/-- A state that does nothing and leads nowhere. -/
def named (name : String) : State C K σ := { name }

/-- The state, accepting. -/
def asAccepting (s : State C K σ) : State C K σ := { s with accepting := true }

/-- The state with the given entry action, in place of any it had. -/
def onEntry (s : State C K σ) (action : C → Stack K → C × Signal) : State C K σ :=
  { s with action }

/-- The state with an entry action that changes the context and never stops the run. -/
def effect (s : State C K σ) (change : C → C) : State C K σ :=
  s.onEntry fun c _ => (change c, .proceed)

/-- The state with the given handler for impasses, in place of any it had. -/
def otherwise (s : State C K σ) (handler : Handler C K) : State C K σ :=
  { s with onImpasse := some handler }

/-- The state with one more transition, tried after those it had. -/
def transition (s : State C K σ) (t : Transition C K σ) : State C K σ :=
  { s with transitions := s.transitions ++ [t] }

end State

/-- How a machine decides an impasse of a state that has no handler. -/
inductive Policy (C : Type u) (K : Type v) where
  /-- Accept if the state is accepting, the input is used up and the stack is empty. -/
  | acceptAtEnd
  /-- Always reject. -/
  | reject
  | custom (handler : Handler C K)

instance {C : Type u} {K : Type v} : Inhabited (Policy C K) := ⟨.acceptAtEnd⟩

/-- The reason given for a state that had to have an eligible transition. -/
def Impasse.noTransition {K : Type v} (i : Impasse K) : String :=
  s!"no transition from state '{i.state}'"

/-- The decision of `Policy.acceptAtEnd`: the first condition that fails gives the reason. -/
def Impasse.atEnd {K : Type v} (i : Impasse K) (inputUsed : Bool) : Outcome :=
  if !i.accepting then .rejected i.noTransition
  else if !inputUsed then .rejected s!"unexpected input in state '{i.state}'"
  else if !i.stack.isEmpty then
    .rejected s!"{i.stack.size} unmatched symbol(s) on the stack in state '{i.state}'"
  else .accepted

/-- Decides an impasse by policy. -/
def Policy.decide {C : Type u} {K : Type v} [Input C] : Policy C K → Handler C K
  | .acceptAtEnd, c, i => (c, i.atEnd (Input.atEnd c))
  | .reject, c, i => (c, .rejected i.noTransition)
  | .custom handler, c, i => handler c i

end StateMachine
