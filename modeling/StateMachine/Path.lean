/-
# Paths: the states a run has come through

A path starts in a state and extends by *moves*, each naming the state it leaves, the state it
enters and the position of the fired transition among those of the state it leaves. A search cuts
a path back to an earlier length before it tries another way.
-/

namespace StateMachine

/-- A fired transition: from which state, into which, and its position in the state left. -/
structure Move where
  source : String
  target : String
  index : Nat
  deriving DecidableEq, Repr

/-- Where a run started and the moves it made, the first one first. -/
structure Path where
  start : String
  moves : Array Move
  deriving DecidableEq, Repr

namespace Path

/-- The path of a run that has not moved. -/
def nil (start : String) : Path := ⟨start, #[]⟩

/-- The number of moves. -/
def length (p : Path) : Nat := p.moves.size

/-- No move has been made. -/
def isEmpty (p : Path) : Bool := p.moves.isEmpty

/-- The path with one more move. -/
def push (p : Path) (m : Move) : Path := { p with moves := p.moves.push m }

/-- The path's first `n` moves. -/
def truncate (p : Path) (n : Nat) : Path := { p with moves := p.moves.shrink n }

/-- The state in which the path ends. -/
def last (p : Path) : String :=
  match p.moves.back? with
  | none => p.start
  | some m => m.target

/-- The states along the path, from the start to the last. -/
def states (p : Path) : List String := p.start :: p.moves.toList.map Move.target

/-- A path without moves ends where it starts. -/
@[simp] theorem last_nil (s : String) : (nil s).last = s := rfl

/-- A path ends at the target of its latest move. -/
@[simp] theorem last_push (p : Path) (m : Move) : (p.push m).last = m.target := by
  simp [last, push]

/-- Every move makes a path longer by one. -/
@[simp] theorem length_push (p : Path) (m : Move) : (p.push m).length = p.length + 1 := by
  simp [length, push]

/-- A move adds its target to the states that a path leads through. -/
@[simp] theorem states_push (p : Path) (m : Move) :
    (p.push m).states = p.states ++ [m.target] := by
  simp [states, push]

/-- Cutting a path to its own length leaves it as it is. -/
@[simp] theorem truncate_length (p : Path) : p.truncate p.length = p := by
  simp [truncate, length, Array.shrink_eq_take]

/-- A path that is cut has the length it is cut to, unless it was shorter before. -/
@[simp] theorem length_truncate (p : Path) (n : Nat) : (p.truncate n).length = min n p.length := by
  simp [truncate, length]

/-- Cutting a path leads to no other states. -/
theorem states_truncate_subset (p : Path) (n : Nat) : (p.truncate n).states ⊆ p.states := by
  obtain ⟨start, ⟨moves⟩⟩ := p
  simp only [states, truncate, Array.shrink_eq_take, List.take_toArray]
  exact List.cons_subset_cons start (List.map_subset Move.target (List.take_subset n moves))

/-- A new move comes after those made before. -/
theorem moves_push_length (p : Path) (m : Move) : (p.push m).moves[p.length]? = some m := by
  simp [push, length]

/-- The earlier moves of a path stay where they are when another one is added. -/
theorem moves_push_of_lt (p : Path) (m : Move) {n : Nat} (h : n < p.length) :
    (p.push m).moves[n]? = p.moves[n]? := by
  have hn : n ≠ p.moves.size := Nat.ne_of_lt h
  simp [push, Array.getElem?_push, hn]

/-- Cutting a path does not touch the moves before the cut. -/
theorem moves_truncate_of_lt (p : Path) {n k : Nat} (h : n < k) :
    (p.truncate k).moves[n]? = p.moves[n]? := by
  obtain ⟨start, ⟨moves⟩⟩ := p
  simp [truncate, Array.shrink_eq_take, h]

/-- **Cutting off the moves made since brings the path back.** -/
theorem truncate_push (p : Path) (m : Move) {n : Nat} (h : n ≤ p.length) :
    (p.push m).truncate n = p.truncate n := by
  obtain ⟨start, ⟨moves⟩⟩ := p
  simp only [length, List.size_toArray] at h
  simp [truncate, push, Array.shrink_eq_take, List.take_append_of_le_length h]

/-- Of two cuts the one closer to the start decides. -/
theorem truncate_truncate (p : Path) {a b : Nat} (h : b ≤ a) :
    (p.truncate a).truncate b = p.truncate b := by
  obtain ⟨start, ⟨moves⟩⟩ := p
  simp [truncate, Array.shrink_eq_take, List.take_take, Nat.min_eq_left h]

/-- What begins with a path and one more move begins with the path. -/
theorem truncate_of_push {p q : Path} {v : Move} (h : q.truncate (p.push v).length = p.push v) :
    q.truncate p.length = p := by
  have hle : p.length ≤ (p.push v).length := by rw [length_push]; exact Nat.le_succ _
  rw [← truncate_truncate q hle, h, truncate_push p v (Nat.le_refl _), truncate_length]

end Path
end StateMachine
