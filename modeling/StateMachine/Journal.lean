/-
# Journals: paths with times

A journal is a path whose moves carry the moments at which they were made. Recording a move leaves
the journal that it is recorded in as it was. The duration of a journal is the time from the first
move to the last, if there is one and the times are not in reverse order.
-/

import StateMachine.Path
import StateMachine.Time.Timestamp

namespace StateMachine

/-- A move and its moment. -/
structure Entry where
  move : Move
  time : Timestamp
  deriving DecidableEq, Repr

/-- Where a run started, and its moves with their moments, the first one first. -/
structure Journal where
  start : String
  entries : List Entry
  deriving DecidableEq, Repr

namespace Journal

/-- The journal of a run that has not moved. -/
def nil (start : String) : Journal := ⟨start, []⟩

/-- The journal with one more entry. -/
def record (j : Journal) (e : Entry) : Journal := { j with entries := j.entries ++ [e] }

/-- The moves without their moments. -/
def path (j : Journal) : Path := ⟨j.start, (j.entries.map Entry.move).toArray⟩

/-- The number of moves. -/
def length (j : Journal) : Nat := j.entries.length

/-- Nothing has been written down. -/
def isEmpty (j : Journal) : Bool := j.entries.isEmpty

/-- The time from the first move to the last. -/
def duration (j : Journal) : Option (Nat × Nat) :=
  match j.entries.head?, j.entries.getLast? with
  | some first, some last => first.time.elapsed last.time
  | _, _ => none

/-- The path of a journal has one move for each entry. -/
@[simp] theorem length_path (j : Journal) : j.path.length = j.length := by
  simp [path, Path.length, length]

end Journal
end StateMachine
