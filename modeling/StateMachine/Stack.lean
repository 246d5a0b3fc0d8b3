/-
# The symbol stack

Transitions may require a symbol on top of the stack, which they pop, and may push one. A stack is
kept top first; `toList` shows it bottom first, the order in which it was filled.

`undo` takes back what `apply` did: it needs the symbol that was popped, if any, and whether one
was pushed.
-/

namespace StateMachine

universe u

/-- A last-in, first-out store of symbols. -/
structure Stack (K : Type u) where
  /-- The symbols, the top one first. -/
  topFirst : List K
  deriving DecidableEq, Repr

namespace Stack

variable {K : Type u}

/-- The stack without symbols. -/
def empty : Stack K := ⟨[]⟩

/-- The stack filled with the given symbols in order, so that the last one is on top. -/
def ofList (symbols : List K) : Stack K := ⟨symbols.reverse⟩

/-- The symbols, the bottom one first. -/
def toList (s : Stack K) : List K := s.topFirst.reverse

/-- The number of symbols on the stack. -/
def size (s : Stack K) : Nat := s.topFirst.length

/-- There is no symbol on the stack. -/
def isEmpty (s : Stack K) : Bool := s.topFirst.isEmpty

/-- The symbol on top. -/
def top? (s : Stack K) : Option K := s.topFirst.head?

/-- Puts a symbol on top of the stack. -/
def push (s : Stack K) (k : K) : Stack K := ⟨k :: s.topFirst⟩

/-- The stack without its top symbol; an empty stack stays empty. -/
def pop (s : Stack K) : Stack K := ⟨s.topFirst.tail⟩

/-- The symbol occurs somewhere in the stack. -/
def contains [BEq K] (s : Stack K) (k : K) : Bool := s.topFirst.contains k

/-- A transition with this requirement may fire: a required symbol is on top. -/
def admits [BEq K] (s : Stack K) : Option K → Bool
  | none => true
  | some k => s.top? == some k

/-- Pops if a symbol is required, then pushes the given symbol, if any. -/
def apply (s : Stack K) (required pushed : Option K) : Stack K :=
  let s := if required.isSome then s.pop else s
  match pushed with
  | none => s
  | some k => s.push k

/-- Drops the pushed symbol, if one was pushed, and puts back the popped one, if any. -/
def undo (s : Stack K) (popped : Option K) (pushed : Bool) : Stack K :=
  let s := if pushed then s.pop else s
  match popped with
  | none => s
  | some k => s.push k

/-- Taking off the symbol that was put on last gives the stack back. -/
@[simp] theorem pop_push (s : Stack K) (k : K) : (s.push k).pop = s := rfl

/-- There is no symbol on the empty stack. -/
@[simp] theorem toList_empty : (empty : Stack K).toList = [] := rfl

/-- A symbol that is put on the stack comes last, as the stack is read from the bottom. -/
@[simp] theorem toList_push (s : Stack K) (k : K) : (s.push k).toList = s.toList ++ [k] := by
  simp [toList, push]

/-- A stack read from the bottom holds the symbols it was made of. -/
@[simp] theorem toList_ofList (l : List K) : (ofList l).toList = l := by
  simp [toList, ofList]

/-- **Undoing an admitted transition's stack effect gives the stack back.** -/
theorem undo_apply [BEq K] [LawfulBEq K] {s : Stack K} {required pushed : Option K}
    (h : s.admits required) : (s.apply required pushed).undo required pushed.isSome = s := by
  obtain ⟨l⟩ := s
  cases required <;> cases pushed <;> cases l <;>
    simp_all [admits, top?, apply, undo, push, pop]

end Stack
end StateMachine
