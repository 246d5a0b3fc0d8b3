/-
# Tables of links

A table of links gives, for each vertex that is in it, the other ends of some edges. What a table
says of a vertex is all there is to it: `Links.get?` is the view in which each operation is
described.
-/

import StateMachine.Graph.Basic

namespace StateMachine

universe u

/-- Vertices with the other ends of their edges. -/
structure Links (V : Type u) where
  rows : List (V × List V)
  deriving DecidableEq, Repr

namespace Links

variable {V : Type u} [DecidableEq V]

/-- The table without vertices. -/
def empty : Links V := ⟨[]⟩

/-- The ends that are noted for a vertex, if the vertex is in the table. -/
def get? (t : Links V) (v : V) : Option (List V) := (t.rows.find? (·.1 = v)).map Prod.snd

/-- The vertex is in the table. -/
def contains (t : Links V) (v : V) : Bool := (t.get? v).isSome

/-- The ends that are noted for a vertex; a vertex that is not in the table is not found. -/
def ends (t : Links V) (v : V) : GraphResult V (List V) :=
  match t.get? v with
  | some ends => .ok ends
  | none => .error (.notFound v)

/-- The given vertices, without ends. -/
def ofVertices (vertices : List V) : Links V := ⟨vertices.map fun v => (v, [])⟩

/-- Takes a vertex out of the table. -/
def erase (t : Links V) (v : V) : Links V := ⟨t.rows.filter (·.1 ≠ v)⟩

/-- Puts a vertex into the table, with the given ends in place of any it had. -/
def insert (t : Links V) (v : V) (ends : List V) : Links V := ⟨(t.erase v).rows ++ [(v, ends)]⟩

/-- Changes the ends of a vertex, if it is in the table. -/
def modify (t : Links V) (v : V) (f : List V → List V) : Links V :=
  ⟨t.rows.map fun row => if row.1 = v then (row.1, f row.2) else row⟩

/-- Notes one more end of a vertex, after those it has. A vertex that is not in the table is put
there. -/
def push (t : Links V) (v w : V) : Links V :=
  if t.contains v then t.modify v fun ends => ends ++ [w] else t.insert v [w]

/-- Notes an end of each of the given vertices, as often as it is given. -/
def pushAll (t : Links V) (owners : List V) (w : V) : Links V :=
  owners.foldl (fun t v => t.push v w) t

/-- Drops a vertex from the ends of each of the given vertices. -/
def drop (t : Links V) (v : V) (owners : List V) : Links V :=
  owners.foldl (fun t w => t.modify w fun ends => ends.filter (· ≠ v)) t

section View

variable (t : Links V) (v w : V)

/-- An erased vertex is not in the table any more; the others keep their ends. -/
theorem get?_erase : (t.erase v).get? w = if w = v then none else t.get? w := by
  simp only [get?, erase, List.find?_filter]
  split
  · subst w
    simp
  · rename_i hw
    congr 2
    funext row
    by_cases h : row.1 = w <;> simp [h, hw]

/-- An inserted vertex has the given ends, whatever ends it had before. -/
theorem get?_insert (ends : List V) :
    (t.insert v ends).get? w = if w = v then some ends else t.get? w := by
  have herase := t.get?_erase v w
  simp only [get?, insert, List.find?_append, Option.map_or] at herase ⊢
  rw [herase]
  by_cases hw : w = v
  · simp [hw]
  · simp [hw, Ne.symm hw]

/-- Only the vertex itself has its ends changed, and only if it is in the table. -/
theorem get?_modify (f : List V → List V) :
    (t.modify v f).get? w = if w = v then (t.get? w).map f else t.get? w := by
  have hkey : ((fun row : V × List V => decide (row.1 = w)) ∘
      fun row => if row.1 = v then (row.1, f row.2) else row) = fun row => decide (row.1 = w) := by
    funext row
    by_cases h : row.1 = v <;> simp [h]
  simp only [get?, modify, List.find?_map, hkey, Option.map_map]
  cases hrow : t.rows.find? fun row => decide (row.1 = w) with
  | none => simp
  | some row =>
    have hw : row.1 = w := by simpa using List.find?_some hrow
    by_cases h : w = v <;> simp [hw, h]

/-- A new end of a vertex comes after those it has; it is the only one of a new vertex. -/
theorem get?_push (u : V) :
    (t.push v u).get? w = if w = v then some ((t.get? w).getD [] ++ [u]) else t.get? w := by
  unfold push contains
  cases hv : t.get? v with
  | none =>
    by_cases hw : w = v <;> simp [get?_insert, hw, hv]
  | some ends =>
    by_cases hw : w = v <;> simp [get?_modify, hw, hv]

/-- Every owner gets the end once for each time it stands in the list. -/
theorem get?_pushAll (owners : List V) :
    (t.pushAll owners v).get? w =
      if w ∈ owners then some ((t.get? w).getD [] ++ List.replicate (owners.count w) v)
      else t.get? w := by
  induction owners generalizing t with
  | nil => rfl
  | cons x owners ih =>
    have hcons : t.pushAll (x :: owners) v = (t.push x v).pushAll owners v := rfl
    rw [hcons, ih, get?_push]
    by_cases hx : w = x
    · subst hx
      by_cases hmem : w ∈ owners
      · simp [hmem, List.replicate_succ]
      · simp [hmem, List.count_eq_zero_of_not_mem hmem]
    · simp [hx, Ne.symm hx]

/-- The given vertices are in the table without ends, and no other vertex is. -/
theorem get?_ofVertices (vertices : List V) :
    (ofVertices vertices).get? v = if v ∈ vertices then some [] else none := by
  induction vertices with
  | nil => rfl
  | cons x vertices ih =>
    have hcons : (ofVertices (x :: vertices)).get? v =
        if x = v then some [] else (ofVertices vertices).get? v := by
      simp only [get?, ofVertices, List.map_cons, List.find?_cons]
      by_cases hx : x = v <;> simp [hx]
    rw [hcons, ih]
    by_cases hx : x = v
    · simp [hx]
    · simp [hx, Ne.symm hx]

/-- Each of the given vertices loses the end, and every other vertex keeps its ends. -/
theorem get?_drop (owners : List V) :
    (t.drop v owners).get? w =
      if w ∈ owners then (t.get? w).map (List.filter (· ≠ v)) else t.get? w := by
  induction owners generalizing t with
  | nil => simp [drop]
  | cons x owners ih =>
    have hcons : t.drop v (x :: owners) =
        (t.modify x fun ends => ends.filter (· ≠ v)).drop v owners := rfl
    rw [hcons, ih, get?_modify]
    by_cases hx : w = x <;> by_cases hmem : w ∈ owners <;>
      simp [hx, hmem, Option.map_map, Function.comp_def]

end View

/-- A table in which no vertex is found is empty. -/
theorem eq_empty_of_get? {t : Links V} (h : ∀ v, t.get? v = none) : t = empty := by
  obtain ⟨rows⟩ := t
  cases rows with
  | nil => rfl
  | cons row rows =>
    have hrow := h row.1
    simp [get?] at hrow

end Links
end StateMachine
