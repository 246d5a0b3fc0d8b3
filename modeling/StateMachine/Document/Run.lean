/-
# Documents about runs

Limits are a record of two optional fields; a list of them may end early. An accepting outcome is
its name; a rejecting one is an object whose one member is its name with the reason, and an
accepting one may be read from such an object with `null`.
-/

import StateMachine.Document.Basic
import StateMachine.Run.Summary

namespace StateMachine

open Document

instance : Document Limits where
  toJson l :=
    .ofMembers
      [("step_limit", Json.ofOption toJson l.steps), ("trail_limit", Json.ofOption toJson l.trail)]
  ofJson? j := do
    let fs ← j.fields? ["step_limit", "trail_limit"] .open
    let steps ← fs.optional "step_limit" ofJson?
    let trail ← fs.optional "trail_limit" ofJson?
    return { steps, trail }

/-- The outcome that an object's one member gives. -/
def Outcome.ofMember? (key : String) (value : Json) : Option Outcome :=
  if key = "Accepted" then
    match value with
    | .null => some .accepted
    | _ => none
  else if key = "Rejected" then value.string?.map .rejected
  else none

instance : Document Outcome where
  toJson
    | .accepted => .ofString "Accepted"
    | .rejected reason => .ofMembers [("Rejected", .ofString reason)]
  ofJson?
    | .text lexeme => if Json.unescape lexeme = some "Accepted" then some .accepted else none
    | .object [(key, value)] => (Json.unescape key).bind (Outcome.ofMember? · value)
    | _ => none

instance : Document Uuid where
  toJson u := .ofString (String.ofList u.write)
  ofJson? j := j.string?.bind Uuid.read?

instance : Document Summary where
  toJson s :=
    .ofMembers
      [("run_id", toJson s.run), ("outcome", toJson s.outcome), ("path", toJson s.path),
       ("steps", toJson s.steps), ("backtracks", toJson s.backtracks)]
  ofJson? j := do
    let fs ← j.fields? ["run_id", "outcome", "path", "steps", "backtracks"] .full
    let run ← fs.required "run_id" ofJson?
    let outcome ← fs.required "outcome" ofJson?
    let path ← fs.required "path" ofJson?
    let steps ← fs.required "steps" ofJson?
    let backtracks ← fs.required "backtracks" ofJson?
    return { run, outcome, path, steps, backtracks }

/-- A field that is left out. -/
example : Document.read "\x7b\"trail_limit\": 3\x7d" = some (⟨none, some 3⟩ : Limits) := by
  decide +kernel

/-- A number too large for a machine word. -/
example : (Document.read "[18446744073709551616]" : Option Limits) = none := by decide +kernel

example : render .compact (Outcome.rejected "no") = "\x7b\"Rejected\":\"no\"\x7d" := by
  decide +kernel

end StateMachine
