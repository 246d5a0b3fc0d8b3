/-
# Documents of descriptions

Label, pop and push of a transition stand in its object only where they are present.
-/

import StateMachine.Document.Basic
import StateMachine.Machine.Description

namespace StateMachine

open Document

/-- A member for a value that is present, none for an absent one. -/
def Document.presentMember (name : String) : Option String → List (String × Json)
  | none => []
  | some s => [(name, toJson s)]

instance : Document EdgeDescription where
  toJson e :=
    .ofMembers <|
      [("target", toJson e.target)] ++ presentMember "label" e.label ++
        [("guarded", toJson e.guarded)] ++ presentMember "pop" e.pop ++
        presentMember "push" e.push
  ofJson? j := do
    let fs ← j.fields? ["target", "label", "guarded", "pop", "push"] .full
    let target ← fs.required "target" ofJson?
    let label ← fs.optional "label" ofJson?
    let guarded ← fs.required "guarded" ofJson?
    let pop ← fs.optional "pop" ofJson?
    let push ← fs.optional "push" ofJson?
    return { target, label, guarded, pop, push }

instance : Document StateDescription where
  toJson s :=
    .ofMembers
      [("name", toJson s.name), ("accepting", toJson s.accepting),
       ("transitions", toJson s.transitions)]
  ofJson? j := do
    let fs ← j.fields? ["name", "accepting", "transitions"] .full
    let name ← fs.required "name" ofJson?
    let accepting ← fs.required "accepting" ofJson?
    let transitions ← fs.required "transitions" ofJson?
    return { name, accepting, transitions }

instance : Document Description where
  toJson d :=
    .ofMembers
      [("name", toJson d.name), ("initial", toJson d.initial), ("states", toJson d.states)]
  ofJson? j := do
    let fs ← j.fields? ["name", "initial", "states"] .full
    let name ← fs.required "name" ofJson?
    let initial ← fs.required "initial" ofJson?
    let states ← fs.required "states" ofJson?
    return { name, initial, states }

end StateMachine
