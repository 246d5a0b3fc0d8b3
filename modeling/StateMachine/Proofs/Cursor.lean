/-
# The cursor of a tape

The cursor of a tape is moved by advancing, by seeking and by going back to a mark. A tape has the
bound of its cursor in its type. The moves keep it by themselves, which is said with *loose* tapes:
their cursor is any number, and reading on a side of a cursor that lies outside is a fault. A loose
tape at its beginning and a tape of the same symbols stay the same under all moves
(`Tape.loose_moveAll`), so no move leads to a fault.

The symbols never change, so that a mark, which is a position, brings the tape back after any moves.
-/

import StateMachine.Tape

namespace StateMachine

universe u

variable {α : Type u}

/-- A way to move the cursor of a tape. -/
inductive CursorMove where
  | advance
  | seek (position : Nat)
  | rewind (mark : Nat)
  deriving DecidableEq, Repr

/-- Symbols and a cursor that may be any number. -/
structure LooseTape (α : Type u) where
  symbols : Array α
  position : Nat

namespace LooseTape

/-- A loose tape of the given symbols, nothing of it consumed. -/
def ofArray (symbols : Array α) : LooseTape α := ⟨symbols, 0⟩

/-- The symbol under the cursor, if there is one. -/
def current (t : LooseTape α) : Option α := t.symbols[t.position]?

/-- The symbols before the cursor; `none` is a fault. -/
def consumed? (t : LooseTape α) : Option (List α) :=
  if t.position ≤ t.symbols.size then some (t.symbols.toList.take t.position) else none

/-- The symbols from the cursor on; `none` is a fault. -/
def remaining? (t : LooseTape α) : Option (List α) :=
  if t.position ≤ t.symbols.size then some (t.symbols.toList.drop t.position) else none

/-- Moves the cursor one symbol on. The answer is the symbol that is then under it. -/
def advance (t : LooseTape α) : Except TapeError (Option α) × LooseTape α :=
  if t.symbols.size ≤ t.position then (.error (.exhausted t.position), t)
  else
    let moved := { t with position := t.position + 1 }
    (.ok moved.current, moved)

/-- Moves the cursor to a position. -/
def seek (t : LooseTape α) (p : Nat) : Except TapeError Unit × LooseTape α :=
  if t.symbols.size < p then (.error (.outOfRange p t.symbols.size), t)
  else (.ok (), { t with position := p })

/-- The loose tape after a move. Whether it was refused does not show when it goes back to a
mark. -/
def move (t : LooseTape α) : CursorMove → LooseTape α
  | .advance => t.advance.2
  | .seek p => (t.seek p).2
  | .rewind p => (t.seek p).2

/-- The loose tape after moves, the first one first. -/
def moveAll (t : LooseTape α) (moves : List CursorMove) : LooseTape α := moves.foldl move t

end LooseTape

namespace Tape

/-- The tape after a move. -/
def move (t : Tape α) : CursorMove → Tape α
  | .advance => t.after t.advance
  | .seek p => t.after (t.seek p)
  | .rewind p => Rewind.rewind t p

/-- The tape after moves, the first one first. -/
def moveAll (t : Tape α) (moves : List CursorMove) : Tape α := moves.foldl move t

/-- The cursor cannot be moved so. -/
def Refuses (t : Tape α) : CursorMove → Prop
  | .advance => Cursor.isExhausted t
  | .seek p => t.length < p
  | .rewind p => t.length < p

/-- The tape without the bound on its cursor. -/
def loose (t : Tape α) : LooseTape α := ⟨t.symbols, t.position⟩

/-- A tape is exhausted when its cursor stands behind the last symbol. -/
theorem isExhausted_iff (t : Tape α) :
    Cursor.isExhausted t = true ↔ t.position = t.symbols.size := by
  have hbound := t.position_le
  change t.current.isNone = true ↔ _
  simp only [current, Option.isNone_iff_eq_none, Array.getElem?_eq_none_iff]
  omega

/-- Advancing fails just on an exhausted tape, and the error names the position. -/
theorem advance_eq_error_iff {t : Tape α} {e : TapeError} :
    t.advance = .error e ↔ Cursor.isExhausted t = true ∧ e = .exhausted t.position := by
  have hbound := t.position_le
  rw [isExhausted_iff, advance]
  split
  · next h => simp [Nat.ne_of_lt h]
  · next h =>
    have heq : t.position = t.symbols.size := by omega
    simp [heq, eq_comm]

/-- Seeking fails just beyond the end of the tape, and the error names the position asked for and
the length. -/
theorem seek_eq_error_iff {t : Tape α} {p : Nat} {e : TapeError} :
    t.seek p = .error e ↔ t.symbols.size < p ∧ e = .outOfRange p t.symbols.size := by
  rw [seek]
  split
  · next h => simp [Nat.not_lt.2 h]
  · next h => simp [Nat.lt_of_not_le h, eq_comm]

/-- Seeking outside of the tape leaves it as it is. -/
theorem after_seek_of_lt {t : Tape α} {p : Nat} (h : t.symbols.size < p) :
    t.after (t.seek p) = t := by
  rw [seek_eq_error_iff.2 ⟨h, rfl⟩, after]

/-- A move that is refused leaves the tape as it is. -/
theorem move_of_refuses {t : Tape α} {v : CursorMove} (h : t.Refuses v) : t.move v = t := by
  cases v with
  | advance => rw [move, advance_eq_error_iff.2 ⟨h, rfl⟩, after]
  | seek p => exact after_seek_of_lt h
  | rewind p => exact after_seek_of_lt h

/-- Seeking does not change the symbols, whether it succeeds or not. -/
theorem symbols_after_seek (t : Tape α) (p : Nat) : (t.after (t.seek p)).symbols = t.symbols := by
  unfold seek
  split <;> rfl

/-- No move writes on the tape. -/
theorem symbols_move (t : Tape α) (v : CursorMove) : (t.move v).symbols = t.symbols := by
  cases v with
  | advance => exact symbols_after_advance t
  | seek p => exact symbols_after_seek t p
  | rewind p => exact symbols_after_seek t p

/-- No moves of the cursor change the symbols. -/
theorem symbols_moveAll (t : Tape α) (moves : List CursorMove) :
    (t.moveAll moves).symbols = t.symbols := by
  induction moves generalizing t with
  | nil => rfl
  | cons v moves ih => exact (ih (t.move v)).trans (t.symbols_move v)

section Loose

/-- Advancing needs no bound on the cursor. -/
theorem loose_advance (t : Tape α) :
    t.loose.advance = (t.advance.map current, (t.after t.advance).loose) := by
  by_cases h : t.position < t.symbols.size
  · rw [advance, dif_pos h]
    exact if_neg (Nat.not_le.2 h)
  · rw [advance, dif_neg h]
    exact if_pos (Nat.le_of_not_lt h)

/-- Seeking needs no bound on the cursor. -/
theorem loose_seek (t : Tape α) (p : Nat) :
    t.loose.seek p = ((t.seek p).map fun _ => (), (t.after (t.seek p)).loose) := by
  by_cases h : p ≤ t.symbols.size
  · rw [seek_of_le h]
    exact if_neg (Nat.not_lt.2 h)
  · rw [seek_eq_error_iff.2 ⟨Nat.lt_of_not_le h, rfl⟩]
    exact if_pos (Nat.lt_of_not_le h)

/-- Every move does the same to both tapes. -/
theorem loose_move (t : Tape α) (v : CursorMove) : t.loose.move v = (t.move v).loose := by
  cases v with
  | advance => exact congrArg Prod.snd t.loose_advance
  | seek p => exact congrArg Prod.snd (t.loose_seek p)
  | rewind p => exact congrArg Prod.snd (t.loose_seek p)

/-- **The moves keep the cursor on the tape by themselves.** -/
theorem loose_moveAll (t : Tape α) (moves : List CursorMove) :
    t.loose.moveAll moves = (t.moveAll moves).loose := by
  induction moves generalizing t with
  | nil => rfl
  | cons v moves ih =>
    change (t.loose.move v).moveAll moves = _
    rw [loose_move, ih]
    rfl

/-- The slice before the cursor is valid on the loose tape, and is what the tape has consumed. -/
theorem consumed?_loose (t : Tape α) : t.loose.consumed? = some t.consumed :=
  if_pos t.position_le

/-- The slice from the cursor on is valid on the loose tape, and is what remains of the tape. -/
theorem remaining?_loose (t : Tape α) : t.loose.remaining? = some t.remaining :=
  if_pos t.position_le

end Loose

/-- **The cursor is always valid, and marks restore the tape.** Move the cursor of a new tape of any
symbols in any way.

* A cursor that may be any number moves in the same way and gets the same answers, so it stays
  within the symbols, which never change. What is consumed and what remains can be read, and
  together they are the symbols.
* The symbol under the cursor is the first that remains. The input is used up just if the cursor
  stands past the last symbol.
* Advancing is refused just if the input is used up, and seeking just if the position lies outside.
  A refused move, back to a mark that lies outside too, leaves the tape as it is.
* After any further moves, a mark that is taken now brings back the tape as it is now. -/
theorem cursor_stays_valid (symbols : Array α) (moves : List CursorMove) :
    let t := (ofArray symbols).moveAll moves
    ((LooseTape.ofArray symbols).moveAll moves = t.loose ∧
      t.loose.advance = (t.advance.map current, (t.move .advance).loose) ∧
      (∀ p, t.loose.seek p = ((t.seek p).map fun _ => (), (t.move (.seek p)).loose)) ∧
      t.position ≤ symbols.size ∧ t.symbols = symbols ∧
      t.loose.consumed? = some t.consumed ∧ t.loose.remaining? = some t.remaining ∧
      t.consumed ++ t.remaining = symbols.toList) ∧
    (t.current = t.remaining.head? ∧
      (Cursor.isExhausted t = true ↔ t.position = symbols.size) ∧
      (Input.atEnd t = true ↔ t.position = symbols.size)) ∧
    ((∀ e, t.advance = .error e ↔ Cursor.isExhausted t = true ∧ e = .exhausted t.position) ∧
      (∀ p e, t.seek p = .error e ↔ symbols.size < p ∧ e = .outOfRange p symbols.size) ∧
      ∀ v, t.Refuses v → t.move v = t) ∧
    ∀ later, Rewind.rewind (t.moveAll later) (Rewind.mark t) = t := by
  intro t
  have hsymbols : t.symbols = symbols := symbols_moveAll _ moves
  have hsize : t.symbols.size = symbols.size := congrArg Array.size hsymbols
  refine ⟨⟨loose_moveAll (ofArray symbols) moves, t.loose_advance, t.loose_seek, ?_, hsymbols,
    t.consumed?_loose, t.remaining?_loose, ?_⟩, ⟨t.current_eq_head?, ?_, ?_⟩,
    ⟨fun e => advance_eq_error_iff, fun p e => ?_, fun v => move_of_refuses⟩, fun later => ?_⟩
  · exact hsize ▸ t.position_le
  · rw [consumed_append_remaining, hsymbols]
  · rw [isExhausted_iff, hsize]
  · rw [← hsize]
    exact t.isExhausted_iff
  · rw [seek_eq_error_iff, hsize]
  · exact rewind_mark t _ (symbols_moveAll t later)

/-- Past the last symbol, the mark at the end is in range and the one after it is not. -/
example : ((ofString "ab").moveAll [.advance, .advance, .advance, .rewind 3]).position = 2 := rfl

end Tape
end StateMachine
