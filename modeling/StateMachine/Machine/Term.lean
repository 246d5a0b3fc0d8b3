/-
# The shown form of machines

Machines, states and transitions hold functions, which cannot be shown: of a guard only its
presence is, of a state neither action nor handler, of a policy its kind.
-/

import StateMachine.Machine
import StateMachine.Text.Literal
import StateMachine.Text.Term

namespace StateMachine

universe u v

variable {C : Type u} {K : Type v}

/-- A value shown by its literal. -/
def Term.ofLiteral {α : Type u} [Literal α] (a : α) : Term := .word (Literal.literal a)

/-- Any guard. -/
def Guard.term (_ : Guard C K) : Term := .word "Guard"

/-- A policy as it is shown. -/
def Policy.term : Policy C K → Term
  | .acceptAtEnd => .word "AcceptAtEnd"
  | .reject => .word "Reject"
  | .custom _ => .word "Custom"

namespace Machine

/-- A transition of the machine. -/
def transitionTerm [Literal K] (m : Machine C K) (t : Transition C K (Fin m.count)) : Term :=
  .record "Transition" false
    [("target", .ofLiteral (m.stateName t.target)),
     ("guarded", .ofBool t.guard.isSome),
     ("pop", .ofOption (t.pop.map .ofLiteral)),
     ("push", .ofOption (t.push.map .ofLiteral)),
     ("label", .ofOption (t.label.map .ofLiteral))]

/-- A state of the machine. -/
def stateTerm [Literal K] (m : Machine C K) (s : State C K (Fin m.count)) : Term :=
  .record "StateDef" true
    [("name", .ofLiteral s.name),
     ("accepting", .ofBool s.accepting),
     ("transitions", .list (s.transitions.map m.transitionTerm))]

/-- A machine as it is shown: its name, the number of states, the initial state and the policy. -/
def term (m : Machine C K) : Term :=
  .record "Blueprint" false
    [("name", .ofLiteral m.name),
     ("states", .ofLiteral m.count),
     ("initial", .ofLiteral (m.stateName m.initial)),
     ("policy", m.policy.term)]

end Machine
end StateMachine
