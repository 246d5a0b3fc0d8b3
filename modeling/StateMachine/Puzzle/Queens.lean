/-
# Queens that do not attack each other

The puzzle asks for as many queens on a square board as it has columns, no two of them in a row, in
a column or in a diagonal. The machine places one queen after the other, column by column: the
state `place` has a transition for each row that is safe, to a state that puts the queen there and
returns. It accepts when every column has its queen.
-/

import StateMachine.Draft.Basic

namespace StateMachine

/-- A board on which the first columns have their queens. -/
structure Board where
  /-- The number of rows, and of columns. -/
  size : Nat
  /-- The rows of the queens, the one in the first column first. -/
  rows : List Nat
  deriving DecidableEq, Repr

namespace Board

def empty (size : Nat) : Board := ⟨size, []⟩

/-- A queen in the next column and the given row is attacked by none. -/
def isSafe (b : Board) (row : Nat) : Bool :=
  b.rows.zipIdx.all fun (r, column) =>
    r != row && b.rows.length - column != ((r : Int) - row).natAbs

/-- Puts a queen into the next column. -/
def place (row : Nat) (b : Board) : Board := { b with rows := b.rows ++ [row] }

/-- Every column has its queen. -/
def isFull (b : Board) : Bool := b.rows.length == b.size

instance : Input Board where
  atEnd := isFull

/-- A mark is the number of queens; going back takes away those that came later. -/
instance : Rewind Board Nat where
  mark b := b.rows.length
  rewind b n := { b with rows := b.rows.take n }

/-- The name of the state that puts a queen into a row. -/
def rowState (row : Nat) : String := s!"row{row}"

/-- The state that chooses a row. -/
def placeState (size : Nat) : DraftState Board Empty :=
  ((List.range size).map fun row => (Transition.towards (rowState row)).when (isSafe · row)).foldl
    State.transition
    ((State.named "place").onEntry fun b _ => (b, if b.isFull then .accept else .proceed))

/-- The draft of the machine that places queens on a board of the given size. -/
def draft (size : Nat) : Draft Board Empty :=
  { initial := some "place"
    states := placeState size :: (List.range size).map fun row =>
      ((State.named (rowState row)).effect (place row)).transition (.towards "place") }

end Board
end StateMachine
