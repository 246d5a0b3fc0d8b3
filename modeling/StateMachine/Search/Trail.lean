/-
# Trails: the choices a search can return to

Before it fires a transition, a search notes a *choice*: the state, a mark of the context, the
position of the transition it takes, what the transition does to the stack, and how long the path
is. The trail keeps these notes, the latest first to be taken up again. A limited trail forgets its
oldest choices and counts what it forgot.
-/

namespace StateMachine

universe u v w x

/-- What it takes to return to the moment before a transition was fired. States are given as `σ`,
marks of the context as `M`. -/
structure Choice (σ : Type u) (M : Type v) (K : Type w) where
  state : σ
  /-- The mark of the context after the state's action. -/
  mark : M
  /-- The position of the transition that was taken. -/
  taken : Nat
  /-- The symbol that the transition popped, if any. -/
  popped : Option K
  /-- The transition pushed a symbol. -/
  pushed : Bool
  /-- The length of the path before the move. -/
  depth : Nat
  deriving DecidableEq, Repr

/-- The choices of a search, possibly limited in number. -/
structure Trail (σ : Type u) (M : Type v) (K : Type w) where
  /-- The choices that can be returned to, the latest first. -/
  choices : List (Choice σ M K)
  limit : Option Nat
  /-- The number of choices forgotten because of the limit. -/
  discarded : Nat
  deriving DecidableEq, Repr

/-- The choice with its state given in another way. -/
def Choice.map {σ : Type u} {τ : Type x} {M : Type v} {K : Type w} (f : σ → τ)
    (c : Choice σ M K) : Choice τ M K :=
  { c with state := f c.state }

namespace Trail

variable {σ : Type u} {M : Type v} {K : Type w}

/-- A trail without choices. -/
def empty (limit : Option Nat) : Trail σ M K := { choices := [], limit, discarded := 0 }

/-- The number of choices that can be returned to. -/
def length (t : Trail σ M K) : Nat := t.choices.length

/-- There is no choice to return to. -/
def isEmpty (t : Trail σ M K) : Bool := t.choices.isEmpty

/-- The latest choice. -/
def last? (t : Trail σ M K) : Option (Choice σ M K) := t.choices.head?

/-- Notes a choice. What is then too much for the limit is forgotten, the oldest choices first. -/
def push (t : Trail σ M K) (c : Choice σ M K) : Trail σ M K :=
  let choices := c :: t.choices
  match t.limit with
  | none => { t with choices }
  | some n =>
    if choices.length ≤ n then { t with choices }
    else { t with choices := choices.take n, discarded := t.discarded + (choices.length - n) }

/-- Takes the latest choice off the trail. -/
def pop (t : Trail σ M K) : Option (Choice σ M K × Trail σ M K) :=
  match t.choices with
  | [] => none
  | c :: rest => some (c, { t with choices := rest })

/-- The trail with the states of its choices given in another way. -/
def map {τ : Type x} (f : σ → τ) (t : Trail σ M K) : Trail τ M K :=
  { t with choices := t.choices.map (Choice.map f) }

/-- How states are given does not matter to what is remembered. -/
theorem map_push {τ : Type x} (f : σ → τ) (t : Trail σ M K) (c : Choice σ M K) :
    (t.push c).map f = (t.map f).push (c.map f) := by
  unfold push map
  cases t.limit with
  | none => rfl
  | some n =>
    simp only [List.length_cons, List.length_map]
    split
    · rfl
    · simp

/-- A new choice comes before the others, of which the trail keeps as many as the limit allows. -/
theorem choices_push (t : Trail σ M K) (c : Choice σ M K) :
    (t.push c).choices =
      match t.limit with
      | none => c :: t.choices
      | some n => (c :: t.choices).take n := by
  unfold push
  cases t.limit with
  | none => rfl
  | some n =>
    dsimp only
    split
    · rename_i h
      exact (List.take_of_length_le h).symm
    · rfl

/-- What is remembered after a choice has been noted are the latest of these choices. -/
theorem choices_push_prefix (t : Trail σ M K) (c : Choice σ M K) :
    (t.push c).choices <+: c :: t.choices := by
  rw [choices_push]
  split
  · exact List.prefix_refl _
  · exact List.take_prefix _ _

/-- The limit of a trail never changes. -/
@[simp] theorem limit_push (t : Trail σ M K) (c : Choice σ M K) : (t.push c).limit = t.limit := by
  unfold push
  cases t.limit with
  | none => rfl
  | some n =>
    dsimp only
    split <;> rfl

/-- What is on the trail or forgotten was pushed, and not taken off again. -/
theorem discarded_add_length_push (t : Trail σ M K) (c : Choice σ M K) :
    (t.push c).discarded + (t.push c).length = t.discarded + t.length + 1 := by
  unfold push length
  cases t.limit with
  | none => simp; omega
  | some n =>
    dsimp only
    split
    · simp; omega
    · rename_i h
      simp only [List.length_cons, Nat.not_le, List.length_take] at h ⊢
      omega

/-- A trail never holds more choices than its limit. -/
theorem length_push_le {t : Trail σ M K} {n : Nat} (h : t.limit = some n) (c : Choice σ M K) :
    (t.push c).length ≤ n := by
  rw [length, choices_push, h]
  exact List.length_take_le _ _

end Trail
end StateMachine
