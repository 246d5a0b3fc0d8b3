/-
# What a trail retains

A trail is a stack that forgets its oldest choices when it holds too many. It answers every call as
a plain list does that is cut to its last elements whenever one is added (`RecentList`), and it
counts what it forgets, so that no choice is lost: each one that was pushed has been popped, is
forgotten or is still there.

A *backlog* forgets one thing after the other, with a shortcut for the limit zero. The shortcut
keeps whatever is there already, where the loop would forget it all; but nothing ever is there, and
the two agree in every backlog that calls can lead to.
-/

import StateMachine.Search.Trail
import Mathlib.Data.List.DropRight

namespace StateMachine

universe u v w

/-- A store with an end at which things are added and taken away. -/
class PushPop (S : Type u) (A : outParam (Type v)) where
  push : S → A → S
  /-- The last thing, if there is one, and the store without it. -/
  pop : S → Option A × S

/-- A call on such a store. -/
inductive StackCall (A : Type v) where
  | push (a : A)
  | pop
  deriving DecidableEq, Repr

/-- The call adds something. -/
def StackCall.isPush {A : Type v} : StackCall A → Bool
  | .push _ => true
  | .pop => false

namespace PushPop

variable {S : Type u} {T : Type w} {A : Type v} [PushPop S A] [PushPop T A]

/-- Makes calls, the first one first: what the pops have given, and the store in the end. -/
def callAll (s : S) : List (StackCall A) → List (Option A) × S
  | [] => ([], s)
  | .push a :: calls => callAll (push s a) calls
  | .pop :: calls =>
    let after := callAll (pop s).2 calls
    ((pop s).1 :: after.1, after.2)

/-- **Stores in step:** two stores give the same to all pops, and stay related, if each call keeps
them related and each pop gives the same. -/
theorem callAll_simulation {R : S → T → Prop} (hpush : ∀ s t a, R s t → R (push s a) (push t a))
    (hpop : ∀ s t, R s t → (pop s).1 = (pop t).1 ∧ R (pop s).2 (pop t).2) {s : S} {t : T}
    (h : R s t) (calls : List (StackCall A)) :
    (callAll s calls).1 = (callAll t calls).1 ∧ R (callAll s calls).2 (callAll t calls).2 := by
  induction calls generalizing s t with
  | nil => exact ⟨rfl, h⟩
  | cons call calls ih =>
    cases call with
    | push a => exact ih (hpush s t a h)
    | pop =>
      obtain ⟨hgiven, hR⟩ := hpop s t h
      obtain ⟨hanswers, hend⟩ := ih hR
      exact ⟨congrArg₂ List.cons hgiven hanswers, hend⟩

end PushPop

open PushPop

/-- A list, the oldest element first, that is cut to its last ones. -/
structure RecentList (A : Type v) where
  limit : Option Nat
  items : List A
  deriving DecidableEq, Repr

namespace RecentList

variable {A : Type v}

/-- The list with nothing in it. -/
def empty (limit : Option Nat) : RecentList A := ⟨limit, []⟩

/-- The last elements, as many as the limit allows. -/
def cut : Option Nat → List A → List A
  | none, l => l
  | some n, l => l.rtake n

instance : PushPop (RecentList A) A where
  push l a := { l with items := cut l.limit (l.items ++ [a]) }
  pop l := (l.items.getLast?, { l with items := l.items.dropLast })

end RecentList

/-- A row of things, the oldest first, with a count of those that were forgotten. -/
structure Backlog (A : Type v) where
  limit : Option Nat
  kept : List A
  discarded : Nat
  deriving DecidableEq, Repr

namespace Backlog

variable {A : Type v}

/-- The backlog in which nothing is kept and nothing was forgotten. -/
def empty (limit : Option Nat) : Backlog A := ⟨limit, [], 0⟩

/-- Forgets the first of the things, one after the other, as long as there are more than `n`. -/
def shed (n : Nat) : List A → Nat → List A × Nat
  | [], discarded => ([], discarded)
  | a :: l, discarded =>
    if n < (a :: l).length then shed n l (discarded + 1) else (a :: l, discarded)

/-- Adds a thing at the end, and then forgets from the front what is too much. -/
def pushShedding (b : Backlog A) (a : A) : Backlog A :=
  match b.limit with
  | none => { b with kept := b.kept ++ [a] }
  | some n =>
    let left := shed n (b.kept ++ [a]) b.discarded
    { b with kept := left.1, discarded := left.2 }

/-- Adds a thing. If nothing may be kept, it is forgotten without being added. -/
def push (b : Backlog A) (a : A) : Backlog A :=
  if b.limit = some 0 then { b with discarded := b.discarded + 1 } else b.pushShedding a

instance : PushPop (Backlog A) A where
  push := push
  pop b := (b.kept.getLast?, { b with kept := b.kept.dropLast })

/-- Shedding keeps the last things and counts the others. -/
theorem shed_eq (n : Nat) (l : List A) (discarded : Nat) :
    shed n l discarded = (l.rtake n, discarded + (l.length - n)) := by
  induction l generalizing discarded with
  | nil => simp [shed]
  | cons a l ih =>
    rw [shed, List.rtake]
    split
    · next h =>
      have hdrop : (a :: l).length - n = (l.length - n) + 1 := by
        rw [List.length_cons] at h ⊢
        omega
      rw [ih, hdrop, List.drop_succ_cons, List.rtake, Nat.add_assoc, Nat.add_comm 1]
    · next h =>
      rw [Nat.sub_eq_zero_of_le (Nat.le_of_not_lt h), List.drop_zero, Nat.add_zero]

/-- The shortcut is none to a backlog that is empty whenever nothing may be kept. -/
theorem push_eq_pushShedding {b : Backlog A} (h : b.limit = some 0 → b.kept = []) (a : A) :
    b.push a = b.pushShedding a := by
  unfold push
  split
  · next hzero => simp [pushShedding, hzero, h hzero, shed]
  · rfl

end Backlog

namespace Trail

variable {σ : Type u} {M : Type v} {K : Type w}

instance : PushPop (Trail σ M K) (Choice σ M K) where
  push := push
  pop t :=
    match t.pop with
    | none => (none, t)
    | some (c, rest) => (some c, rest)

/-- The trail as a list of its choices. -/
def recent (t : Trail σ M K) : RecentList (Choice σ M K) := ⟨t.limit, t.choices.reverse⟩

/-- The trail as a row of its choices. -/
def backlog (t : Trail σ M K) : Backlog (Choice σ M K) := ⟨t.limit, t.choices.reverse, t.discarded⟩

/-- There are no more choices than the limit allows. -/
def Within (t : Trail σ M K) : Prop := ∀ n, t.limit = some n → t.length ≤ n

/-- A pop takes the first of the choices, if there is one. -/
theorem pop_eq (t : Trail σ M K) :
    PushPop.pop t = (t.choices.head?, { t with choices := t.choices.tail }) := by
  obtain ⟨choices, limit, discarded⟩ := t
  cases choices <;> rfl

/-- A trail stays within its limit when a choice is pushed. -/
theorem within_push (t : Trail σ M K) (c : Choice σ M K) : (t.push c).Within := fun _ hn =>
  length_push_le ((t.limit_push c).symm.trans hn) c

/-- A trail stays within its limit when a choice is popped. -/
theorem within_pop {t : Trail σ M K} (h : t.Within) : (PushPop.pop t).2.Within := by
  rw [pop_eq]
  intro n hn
  have hlength := h n hn
  change t.choices.tail.length ≤ n
  rw [List.length_tail]
  exact Nat.le_trans (Nat.sub_le _ _) hlength

/-- Nothing is kept on a trail that may keep nothing. -/
theorem kept_eq_nil {t : Trail σ M K} (h : t.Within) (hzero : t.limit = some 0) :
    t.backlog.kept = [] :=
  List.reverse_eq_nil_iff.2 (List.eq_nil_of_length_eq_zero (Nat.le_zero.1 (h 0 hzero)))

/-- Pushing a choice does the same to the trail and to the list of recent choices. -/
theorem recent_push (t : Trail σ M K) (c : Choice σ M K) :
    (t.push c).recent = PushPop.push t.recent c := by
  have hitems : (t.push c).choices.reverse = RecentList.cut t.limit (t.choices.reverse ++ [c]) := by
    rw [choices_push]
    cases t.limit with
    | none => simp [RecentList.cut]
    | some n => simp [RecentList.cut, List.rtake_eq_reverse_take_reverse]
  rw [recent, limit_push, hitems]
  rfl

/-- Popping a choice does the same to the trail and to the list of recent choices. -/
theorem recent_pop (t : Trail σ M K) :
    PushPop.pop t.recent = ((PushPop.pop t).1, (PushPop.pop t).2.recent) := by
  rw [pop_eq]
  refine Prod.ext List.getLast?_reverse ?_
  change RecentList.mk t.limit t.choices.reverse.dropLast = ⟨t.limit, t.choices.tail.reverse⟩
  rw [List.dropLast_reverse]

/-- What a push forgets is what there would be too much. -/
theorem discarded_push (t : Trail σ M K) (c : Choice σ M K) {n : Nat} (h : t.limit = some n) :
    (t.push c).discarded = t.discarded + (t.length + 1 - n) := by
  have hlength : (t.push c).length = min n (t.length + 1) := by
    rw [length, choices_push, h, List.length_take, List.length_cons]
    rfl
  have hconserved := t.discarded_add_length_push c
  omega

/-- Pushing a choice does the same to the trail and to the backlog, and counts the same as
forgotten. -/
theorem backlog_push {t : Trail σ M K} (h : t.Within) (c : Choice σ M K) :
    (t.push c).backlog = PushPop.push t.backlog c := by
  have hshed : (t.push c).backlog = t.backlog.pushShedding c := by
    have hkept : (t.push c).choices.reverse = RecentList.cut t.limit (t.choices.reverse ++ [c]) :=
      congrArg RecentList.items (t.recent_push c)
    rw [backlog, hkept, limit_push, Backlog.pushShedding]
    cases hlimit : t.limit with
    | none => simp [backlog, hlimit, push, RecentList.cut]
    | some n =>
      simp [backlog, hlimit, Backlog.shed_eq, discarded_push t c hlimit, RecentList.cut, length]
  exact hshed.trans (Backlog.push_eq_pushShedding (kept_eq_nil h) c).symm

/-- Popping a choice does the same to the trail and to the backlog. -/
theorem backlog_pop (t : Trail σ M K) :
    PushPop.pop t.backlog = ((PushPop.pop t).1, (PushPop.pop t).2.backlog) := by
  rw [pop_eq]
  refine Prod.ext List.getLast?_reverse ?_
  change Backlog.mk t.limit t.choices.reverse.dropLast t.discarded =
    ⟨t.limit, t.choices.tail.reverse, t.discarded⟩
  rw [List.dropLast_reverse]

/-- No calls change the limit. -/
theorem limit_callAll (t : Trail σ M K) (calls : List (StackCall (Choice σ M K))) :
    (callAll t calls).2.limit = t.limit := by
  induction calls generalizing t with
  | nil => rfl
  | cons call calls ih =>
    cases call with
    | push c => exact (ih (t.push c)).trans (t.limit_push c)
    | pop => exact (ih (PushPop.pop t).2).trans (by rw [pop_eq])

/-- **A trail answers as the list of its choices.** -/
theorem callAll_recent (t : Trail σ M K) (calls : List (StackCall (Choice σ M K))) :
    (callAll t calls).1 = (callAll t.recent calls).1 ∧
      (callAll t calls).2.recent = (callAll t.recent calls).2 := by
  refine callAll_simulation (R := fun (t : Trail σ M K) l => t.recent = l) ?_ ?_ rfl calls
  · rintro t - c rfl
    exact t.recent_push c
  · rintro t - rfl
    rw [t.recent_pop]
    exact ⟨rfl, rfl⟩

/-- **A trail within its limit answers as the row of its choices,** and stays within its limit. -/
theorem callAll_backlog {t : Trail σ M K} (h : t.Within)
    (calls : List (StackCall (Choice σ M K))) :
    (callAll t calls).1 = (callAll t.backlog calls).1 ∧
      (callAll t calls).2.Within ∧ (callAll t calls).2.backlog = (callAll t.backlog calls).2 := by
  refine callAll_simulation (R := fun (t : Trail σ M K) b => t.Within ∧ t.backlog = b) ?_ ?_
    ⟨h, rfl⟩ calls
  · rintro t - c ⟨hwithin, rfl⟩
    exact ⟨t.within_push c, backlog_push hwithin c⟩
  · rintro t - ⟨hwithin, rfl⟩
    rw [t.backlog_pop]
    exact ⟨rfl, within_pop hwithin, rfl⟩

/-- What a pop gives is no longer on the trail. -/
theorem length_pop (t : Trail σ M K) :
    (if (PushPop.pop t).1.isSome then 1 else 0) + (PushPop.pop t).2.length = t.length := by
  rw [pop_eq]
  simp only [length]
  cases t.choices with
  | nil => rfl
  | cons c rest => exact Nat.add_comm 1 _

/-- **No choice is lost.** What was pushed has been popped, is forgotten or is still there. -/
theorem countP_isPush (t : Trail σ M K) (calls : List (StackCall (Choice σ M K))) :
    calls.countP StackCall.isPush + (t.discarded + t.length) =
      (callAll t calls).1.countP Option.isSome +
        ((callAll t calls).2.discarded + (callAll t calls).2.length) := by
  induction calls generalizing t with
  | nil => rfl
  | cons call calls ih =>
    cases call with
    | push c =>
      have hpush : (PushPop.push t c).discarded + (PushPop.push t c).length = _ :=
        t.discarded_add_length_push c
      rw [callAll, ← ih, hpush, List.countP_cons_of_pos rfl]
      omega
    | pop =>
      have hpop := t.length_pop
      have hdiscarded : (PushPop.pop t).2.discarded = t.discarded := by rw [pop_eq]
      have hcalls := ih (PushPop.pop t).2
      rw [hdiscarded] at hcalls
      simp only [callAll, List.countP_cons, StackCall.isPush, Bool.false_eq_true, if_false]
      omega

/-- Pops alone give the choices, the latest first, and then nothing. -/
theorem callAll_pops (t : Trail σ M K) (k : Nat) :
    (callAll t (List.replicate k .pop)).1 =
      (t.choices.take k).map some ++ List.replicate (k - t.length) none := by
  induction k generalizing t with
  | zero => simp [callAll]
  | succ k ih =>
    rw [List.replicate_succ, callAll, ih, pop_eq]
    simp only [length]
    cases t.choices with
    | nil => simp [List.replicate_succ]
    | cons c rest => simp

end Trail

/-- **A trail is a bounded stack that conserves its choices.** Push choices on an empty trail of any
limit, none or zero included, and pop them, in any order.

* The trail never holds more than the limit.
* Each pop gives the same as that of a list that is cut to its last elements, and the choices are
  those of this list.
* From then on, pops give these choices, the latest first, and then nothing.
* The pushes are as many as the pops that have given a choice, the choices that are forgotten and
  those that are still there.
* A backlog, which forgets its things one by one but for the shortcut when nothing may be kept,
  does the same, and would do so without the shortcut. -/
theorem trail_bounded_stack {σ : Type u} {M : Type v} {K : Type w} (limit : Option Nat)
    (calls : List (StackCall (Choice σ M K))) :
    let r := callAll (Trail.empty limit : Trail σ M K) calls
    let l := callAll (RecentList.empty limit) calls
    let b := callAll (Backlog.empty limit) calls
    (∀ n, limit = some n → r.2.length ≤ n) ∧
    (r.1 = l.1 ∧ r.2.choices.reverse = l.2.items) ∧
    (∀ k, (callAll r.2 (List.replicate k .pop)).1 =
      (l.2.items.reverse.take k).map some ++ List.replicate (k - l.2.items.length) none) ∧
    calls.countP StackCall.isPush = r.1.countP Option.isSome + r.2.discarded + r.2.length ∧
    (r.1 = b.1 ∧ r.2.choices.reverse = b.2.kept ∧ r.2.discarded = b.2.discarded ∧
      ∀ c, b.2.push c = b.2.pushShedding c) := by
  intro r l b
  have hempty : (Trail.empty limit : Trail σ M K).Within := fun _ _ => Nat.zero_le _
  obtain ⟨hlist, hrecent⟩ := (Trail.empty limit : Trail σ M K).callAll_recent calls
  obtain ⟨hrow, hwithin, hbacklog⟩ := Trail.callAll_backlog hempty calls
  have hitems : r.2.choices.reverse = l.2.items := congrArg RecentList.items hrecent
  have hlimit : r.2.limit = limit := Trail.limit_callAll _ calls
  refine ⟨fun n hn => hwithin n (hlimit.trans hn), ⟨hlist, hitems⟩, fun k => ?_, ?_,
    hrow, congrArg Backlog.kept hbacklog, congrArg Backlog.discarded hbacklog, fun c => ?_⟩
  · rw [← hitems, List.reverse_reverse, List.length_reverse]
    exact r.2.callAll_pops k
  · have hconserved := (Trail.empty limit : Trail σ M K).countP_isPush calls
    exact hconserved.trans (Nat.add_assoc _ _ _).symm
  · -- If nothing may be kept then nothing is, which is all that the shortcut needs.
    have hb : b.2 = r.2.backlog := hbacklog.symm
    rw [hb]
    exact Backlog.push_eq_pushShedding (Trail.kept_eq_nil hwithin) c

/-- A row that nothing may be kept in, and that yet keeps something: here the shortcut matters. -/
example :
    (⟨some 0, [1], 0⟩ : Backlog Nat).push 2 ≠
      (⟨some 0, [1], 0⟩ : Backlog Nat).pushShedding 2 := by
  decide

end StateMachine
