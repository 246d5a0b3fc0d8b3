/-
# Tapes: input held in memory, with a cursor

A tape is a row of symbols and a position in it, at most one past the last symbol; the bound is
part of the type, so `consumed` and `remaining` always split the row in two. A mark of a tape is
its position. Going back to a position that lies outside the row leaves the tape as it is.
-/

import StateMachine.Context

namespace StateMachine

universe u

/-- Symbols and a cursor: `position` symbols are consumed. -/
structure Tape (α : Type u) where
  symbols : Array α
  position : Nat
  position_le : position ≤ symbols.size
  deriving DecidableEq

/-- Why a tape refuses to move. -/
inductive TapeError where
  /-- The cursor stands past the last symbol already. -/
  | exhausted (position : Nat)
  /-- The position asked for lies outside the tape. -/
  | outOfRange (position length : Nat)
  deriving DecidableEq, Repr

/-- The text shown for a refusal. -/
def TapeError.message : TapeError → String
  | .exhausted p => s!"Cannot advance past end of input at position {p}"
  | .outOfRange p n => s!"Position {p} is outside the input (length {n})"

namespace Tape

variable {α : Type u}

/-- A tape of the given symbols, nothing of it consumed. -/
def ofArray (symbols : Array α) : Tape α where
  symbols := symbols
  position := 0
  position_le := Nat.zero_le _

/-- A tape of the given symbols, nothing of it consumed. -/
def ofList (symbols : List α) : Tape α := ofArray symbols.toArray

/-- The characters of a text. -/
def ofString (text : String) : Tape Char := ofList text.toList

/-- The number of symbols on the tape, consumed or not. -/
def length (t : Tape α) : Nat := t.symbols.size

/-- There is no symbol on the tape. -/
def isEmpty (t : Tape α) : Bool := t.symbols.isEmpty

/-- The symbol under the cursor. -/
def current (t : Tape α) : Option α := t.symbols[t.position]?

/-- The symbols before the cursor. -/
def consumed (t : Tape α) : List α := t.symbols.toList.take t.position

/-- The symbols from the cursor on. -/
def remaining (t : Tape α) : List α := t.symbols.toList.drop t.position

/-- Moves the cursor one symbol on. It may come to stand past the last symbol, and no further. -/
def advance (t : Tape α) : Except TapeError (Tape α) :=
  if h : t.position < t.symbols.size then
    .ok { t with position := t.position + 1, position_le := h }
  else
    .error (.exhausted t.position)

/-- Moves the cursor to a position. -/
def seek (t : Tape α) (p : Nat) : Except TapeError (Tape α) :=
  if h : p ≤ t.symbols.size then
    .ok { t with position := p, position_le := h }
  else
    .error (.outOfRange p t.symbols.size)

/-- The tape after a move that may be refused: a refused one leaves it as it is. -/
def after (t : Tape α) : Except TapeError (Tape α) → Tape α
  | .ok moved => moved
  | .error _ => t

/-- Moves on past symbols that satisfy `p`, to the first one that does not, or past the last. -/
def advanceWhile (p : α → Bool) (t : Tape α) : Tape α :=
  if h : t.position < t.symbols.size then
    if p t.symbols[t.position] then
      advanceWhile p { t with position := t.position + 1, position_le := h }
    else t
  else t
termination_by t.symbols.size - t.position

instance : Cursor (Tape α) α where
  current := current

instance : Input (Tape α) where
  atEnd := Cursor.isExhausted

instance : Rewind (Tape α) Nat where
  mark := position
  rewind t p := t.after (t.seek p)

/-- As many symbols have been consumed as the position says. -/
@[simp] theorem length_consumed (t : Tape α) : t.consumed.length = t.position := by
  simp [consumed, t.position_le]

/-- The current symbol is the first of those that remain. -/
theorem current_eq_head? (t : Tape α) : t.current = t.remaining.head? := by
  simp [current, remaining]

/-- A move to a position on the tape puts the cursor there and leaves the symbols alone. -/
theorem seek_of_le {t : Tape α} {p : Nat} (h : p ≤ t.symbols.size) :
    t.seek p = .ok { t with position := p, position_le := h } := by
  simp [seek, h]

/-- **A mark brings the tape back,** whatever has been done to the cursor since. -/
theorem rewind_mark (t u : Tape α) (h : u.symbols = t.symbols) :
    Rewind.rewind u (Rewind.mark t) = t := by
  obtain ⟨symbols, p, hp⟩ := t
  obtain ⟨_, q, hq⟩ := u
  subst h
  change after _ (seek _ p) = _
  rw [seek_of_le hp]
  rfl

/-- A move that is carried out as far as it goes leaves what comes after the symbol under the
cursor. -/
@[simp] theorem remaining_after_advance (t : Tape α) :
    (t.after t.advance).remaining = t.remaining.tail := by
  unfold advance
  split
  · simp [after, remaining]
  · rename_i h
    have hlength : t.symbols.toList.length ≤ t.position := by simpa using h
    simp [after, remaining, List.drop_eq_nil_of_le hlength]

/-- The first symbol that remains is under the cursor, and the others remain after a move. -/
theorem current_of_remaining {t : Tape α} {a : α} {l : List α} (h : t.remaining = a :: l) :
    t.current = some a ∧ (t.after t.advance).remaining = l := by
  rw [current_eq_head?, remaining_after_advance, h]
  exact ⟨rfl, rfl⟩

/-- Where nothing remains, there is no current symbol. -/
theorem current_of_remaining_nil {t : Tape α} (h : t.remaining = []) : t.current = none := by
  rw [current_eq_head?, h, List.head?_nil]

/-- Advancing does not change the symbols, whether it succeeds or not. -/
@[simp] theorem symbols_after_advance (t : Tape α) : (t.after t.advance).symbols = t.symbols := by
  unfold advance
  split <;> rfl

/-- Of a new tape, everything remains. -/
@[simp] theorem remaining_ofString (text : String) : (ofString text).remaining = text.toList := by
  simp [ofString, ofList, ofArray, remaining]

/-- The input is used up when no symbol remains. -/
theorem atEnd_iff_remaining (t : Tape α) : Input.atEnd t = true ↔ t.remaining = [] := by
  change t.current.isNone = true ↔ _
  rw [current_eq_head?, Option.isNone_iff_eq_none, List.head?_eq_none_iff]

/-- What has been consumed and what remains make up the whole tape. -/
theorem consumed_append_remaining (t : Tape α) : t.consumed ++ t.remaining = t.symbols.toList :=
  List.take_append_drop _ _

end Tape
end StateMachine
