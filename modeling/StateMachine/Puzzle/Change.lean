/-
# Change with the fewest coins

The puzzle asks how few coins of given values make an amount. The machine never accepts: it takes
coins one after the other, none of them greater than the one before, notes how many it took
whenever nothing remains, and rejects so that the search goes on. The least number noted so far is
not forgotten when the search returns, and is used to give up ways that cannot be better.
-/

import StateMachine.Draft.Basic

namespace StateMachine

/-- An amount that is being paid. -/
structure Payment where
  /-- What remains to be paid. -/
  remaining : Nat
  /-- The coins taken, the first one first. -/
  used : List Nat := []
  /-- The least number of coins with which the amount was paid so far. -/
  fewest : Option Nat := none
  deriving DecidableEq, Repr

namespace Payment

/-- What a mark of a payment holds. -/
structure Mark where
  remaining : Nat
  used : Nat
  deriving DecidableEq, Repr

instance : Input Payment where
  atEnd p := p.remaining == 0

instance : Rewind Payment Mark where
  mark p := { remaining := p.remaining, used := p.used.length }
  rewind p m := { p with remaining := m.remaining, used := p.used.take m.used }

/-- The coin may be taken next. -/
def allows (p : Payment) (coin : Nat) : Bool :=
  decide (coin ≤ p.remaining) && p.used.getLast?.all fun last => decide (coin ≤ last)

/-- Takes a coin. -/
def take (coin : Nat) (p : Payment) : Payment :=
  { p with remaining := p.remaining - coin, used := p.used ++ [coin] }

/-- Notes the number of coins taken, if it is the least so far. -/
def note (p : Payment) : Payment :=
  { p with fewest := some (match p.fewest with
      | none => p.used.length
      | some n => min n p.used.length) }

/-- One coin more would not be better than what was noted. -/
def isHopeless (p : Payment) : Bool := p.fewest.any fun n => decide (n ≤ p.used.length + 1)

/-- The action of the state that chooses a coin. -/
def review (p : Payment) : Payment × Signal :=
  if p.remaining = 0 then (p.note, .reject "recorded")
  else if p.isHopeless then (p, .reject "pruned")
  else (p, .proceed)

/-- The name of the state that takes a coin. -/
def coinState (coin : Nat) : String := s!"coin{coin}"

/-- The state that chooses a coin. -/
def pickState (coins : List Nat) : DraftState Payment Empty :=
  (coins.map fun coin => (Transition.towards (coinState coin)).when (allows · coin)).foldl
    State.transition ((State.named "pick").onEntry fun p _ => p.review)

/-- The draft of the machine that pays with coins of the given values. -/
def draft (coins : List Nat) : Draft Payment Empty :=
  { initial := some "pick"
    states := pickState coins :: coins.map fun coin =>
      ((State.named (coinState coin)).effect (take coin)).transition (.towards "pick") }

end Payment
end StateMachine
