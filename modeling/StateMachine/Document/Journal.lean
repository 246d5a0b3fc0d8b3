/-
# Documents of journals

A journal is a record of its start and its entries, an entry a record of its move and its moment.
-/

import StateMachine.Document.Basic
import StateMachine.Journal
import StateMachine.Time.Reader

namespace StateMachine

open Document

instance : Document Timestamp where
  toJson t := .ofString (String.ofList t.write)
  ofJson? j := j.string?.bind Timestamp.read?

instance : Document Entry where
  toJson e :=
    .ofMembers
      [("from", toJson e.move.source), ("to", toJson e.move.target),
       ("index", toJson e.move.index), ("timestamp", toJson e.time)]
  ofJson? j := do
    let fs ← j.fields? ["from", "to", "index", "timestamp"] .full
    let source ← fs.required "from" ofJson?
    let target ← fs.required "to" ofJson?
    let index ← fs.required "index" ofJson?
    let time ← fs.required "timestamp" ofJson?
    return { move := { source, target, index }, time }

instance : Document Journal where
  toJson j := .ofMembers [("start", toJson j.start), ("transitions", toJson j.entries)]
  ofJson? j := do
    let fs ← j.fields? ["start", "transitions"] .full
    let start ← fs.required "start" ofJson?
    let entries ← fs.required "transitions" ofJson?
    return { start, entries }

end StateMachine
