/-
# The palindrome machine recognises palindromes of even length

From `match` on, the machine accepts if what remains is what is on the stack, from top to bottom
(`Palindrome.exploresTo_match`). From `push` on it accepts if a word follows, then its reverse, and
then what is on the stack (`Palindrome.exists_exploresTo_push`). A letter is first pushed, so that
later middles are guessed before the one right here; an induction on what remains puts the two
findings together.
-/

import StateMachine.Proofs.Acceptance
import StateMachine.Proofs.Deterministic
import StateMachine.Proofs.Draft.Realization
import StateMachine.Proofs.Rewind

namespace StateMachine

/-- The path with more moves. -/
def Path.extend (p : Path) (l : List Move) : Path := { p with moves := p.moves ++ l.toArray }

/-- A move that is made first comes before the moves by which the path is extended. -/
theorem Path.extend_push (p : Path) (v : Move) (l : List Move) :
    (p.push v).extend l = p.extend (v :: l) := by
  simp [extend, push]

/-- No moves do not extend a path. -/
@[simp] theorem Path.extend_nil (p : Path) : p.extend [] = p := by simp [extend]

namespace Palindrome

/-- **The machine is built from what declares it.** -/
theorem build_declarations : (Draft.ofDeclarations declarations).build = .ok machine :=
  machine.build_draft

/-- A symbol of the words that are recognised. -/
def IsLetter (c : Char) : Prop := c = 'a' ∨ c = 'b'

/-- The position of the transition for a letter, both in `push` and in `match`. -/
def position (c : Char) : Nat := if c = 'a' then 0 else 1

/-- The moves that push a letter. -/
def pushMoves (c : Char) : List Move := [⟨"push", "shift", position c⟩, ⟨"shift", "push", 0⟩]

/-- The moves that match a letter with the one on top of the stack. -/
def matchMoves (c : Char) : List Move :=
  [⟨"match", "reduce", position c⟩, ⟨"reduce", "match", 0⟩]

/-- The moves that push one word, guess the middle, and match another one. -/
def moves (u v : List Char) : List Move :=
  u.flatMap pushMoves ++ ⟨"push", "match", 2⟩ :: v.flatMap matchMoves

/-- The path that pushes the letters of a word, guesses the middle, and matches the rest. -/
def pathOf (w : List Char) : Path := (Path.nil "push").extend (moves w w.reverse)

/-- A word, then its reverse, and then what is on the stack. -/
def Turns (u s w : List Char) : Prop := (∀ c ∈ u, IsLetter c) ∧ w = u ++ (u.reverse ++ s)

/-- With no letters left to push, what remains is just what is on the stack. -/
theorem turns_nil_iff {s w : List Char} : Turns [] s w ↔ w = s := by simp [Turns]

/-- The first letter of a word goes on the stack, and the rest of the word turns above it. -/
theorem turns_cons_iff {x : Char} {u s w : List Char} :
    Turns (x :: u) s w ↔ ∃ v, w = x :: v ∧ IsLetter x ∧ Turns u (x :: s) v := by
  simp only [Turns, List.forall_mem_cons]
  constructor
  · rintro ⟨⟨hx, hu⟩, rfl⟩
    exact ⟨_, rfl, hx, hu, by simp⟩
  · rintro ⟨_, rfl, hx, hu, rfl⟩
    exact ⟨⟨hx, hu⟩, by simp⟩

/-- The path goes on by pushing a letter. -/
theorem extend_moves_cons (h : Path) (x : Char) (u v : List Char) :
    ((h.push ⟨"push", "shift", position x⟩).push ⟨"shift", "push", 0⟩).extend (moves u v) =
      h.extend (moves (x :: u) v) := by
  simp [Path.extend_push, moves, pushMoves]

/-- What is found by guessing the middle right away. -/
theorem middle_eq_some_iff {h p : Path} {s w : List Char} :
    (if w = s then some ((h.push ⟨"push", "match", 2⟩).extend (w.flatMap matchMoves)) else none) =
      some p ↔ w = s ∧ p = h.extend (moves [] s) := by
  rw [Option.ite_none_right_eq_some, Option.some.injEq, Path.extend_push]
  refine and_congr_right ?_
  rintro rfl
  exact eq_comm

/-- The state in which a letter is pushed or the middle is guessed. -/
def atPush : Fin machine.count := ⟨0, by decide⟩

/-- The state in which a letter has been pushed. -/
def atShift : Fin machine.count := ⟨1, by decide⟩

/-- The state in which letters are matched with the stack. -/
def atMatch : Fin machine.count := ⟨2, by decide⟩

/-- The state in which a letter has been matched. -/
def atReduce : Fin machine.count := ⟨3, by decide⟩

section Explore

variable {depth : Nat} {t : Tape Char} {k : Stack Char} {s : List Char} {h : Path}
  {q q' : Option Path} {c : Char}

/-- After `shift` comes `push`, with the next symbol. -/
theorem exploresTo_shift
    (hq : machine.ExploresTo depth atPush (eat t) k (h.push ⟨"shift", "push", 0⟩) q) :
    machine.ExploresTo (depth + 1) atShift t k h q := by
  have heligible : machine.eligibleAt atShift (eat t) k (0 : Fin 1) := rfl
  have hunique (j : Fin 1) (_ : machine.eligibleAt atShift (eat t) k j) : j = 0 :=
    Subsingleton.elim j 0
  exact Machine.exploresTo_of_unique rfl rewinds_machine heligible hunique hq

/-- After `reduce` comes `match`, with the next symbol. -/
theorem exploresTo_reduce
    (hq : machine.ExploresTo depth atMatch (eat t) k (h.push ⟨"reduce", "match", 0⟩) q) :
    machine.ExploresTo (depth + 1) atReduce t k h q := by
  have heligible : machine.eligibleAt atReduce (eat t) k (0 : Fin 1) := rfl
  have hunique (j : Fin 1) (_ : machine.eligibleAt atReduce (eat t) k j) : j = 0 :=
    Subsingleton.elim j 0
  exact Machine.exploresTo_of_unique rfl rewinds_machine heligible hunique hq

/-- In `match`, the transition of the letter under the cursor is eligible if the letter is on top of
the stack, and no other one is. -/
theorem eligibleAt_match_iff (i : Fin 2) :
    machine.eligibleAt atMatch t ⟨s⟩ i ↔
      ∃ c, IsLetter c ∧ i.val = position c ∧ s.head? = some c ∧ t.current = some c := by
  match i with
  | 0 =>
    change (s.head? == some 'a') && (t.current == some 'a') ↔ _
    simp [IsLetter, position]
  | 1 =>
    change (s.head? == some 'b') && (t.current == some 'b') ↔ _
    simp [IsLetter, position]

/-- On the letter that is on top of the stack, matching goes on below it. -/
theorem exploresTo_match_letter (hc : IsLetter c) (ht : t.current = some c)
    (hq : machine.ExploresTo depth atReduce t ⟨s⟩ (h.push ⟨"match", "reduce", position c⟩) q) :
    machine.ExploresTo (depth + 1) atMatch t ⟨c :: s⟩ h q := by
  have heligible (i : Fin 2) (hi : i.val = position c) :
      machine.eligibleAt atMatch t ⟨c :: s⟩ i :=
    (eligibleAt_match_iff i).2 ⟨c, hc, hi, rfl, ht⟩
  have hunique (i : Fin 2) (hi : i.val = position c) (j : Fin 2)
      (hj : machine.eligibleAt atMatch t ⟨c :: s⟩ j) : j = i := by
    obtain ⟨c', -, hj, hc', -⟩ := (eligibleAt_match_iff j).1 hj
    obtain rfl : c = c' := Option.some.inj hc'
    exact Fin.ext (hj.trans hi.symm)
  rcases hc with rfl | rfl
  · exact Machine.exploresTo_of_unique rfl rewinds_machine (heligible 0 rfl) (hunique 0 rfl) hq
  · exact Machine.exploresTo_of_unique rfl rewinds_machine (heligible 1 rfl) (hunique 1 rfl) hq

/-- Where no letter is matched, `match` accepts if nothing remains and the stack is empty. -/
theorem exploresTo_match_impasse
    (hnone : ∀ c, IsLetter c → s.head? = some c → t.current ≠ some c) :
    machine.ExploresTo (depth + 1) atMatch t ⟨s⟩ h
      (if t.remaining = [] ∧ s = [] then some h else none) := by
  have hstuck (i : Fin 2) : ¬ machine.eligibleAt atMatch t ⟨s⟩ i := by
    rw [eligibleAt_match_iff]
    rintro ⟨c, hc, -, hs, ht⟩
    exact hnone c hc hs ht
  have hdecide : (machine.decide atMatch t ⟨s⟩).2 = .accepted ↔ t.remaining = [] ∧ s = [] := by
    change Impasse.atEnd ⟨"match", true, ⟨s⟩⟩ (Input.atEnd t) = .accepted ↔ _
    rw [Impasse.atEnd_eq_accepted_iff, Tape.atEnd_iff_remaining, Stack.empty, Stack.mk.injEq]
    exact and_iff_right rfl
  have himpasse : machine.ExploresTo (depth + 1) atMatch t ⟨s⟩ h
      (if (machine.decide atMatch t ⟨s⟩).2 = .accepted then some h else none) :=
    Machine.exploresTo_of_impasse rfl hstuck
  simpa only [hdecide] using himpasse

/-- In `push`, the transition of the letter under the cursor is eligible, and the one that guesses
the middle. -/
theorem eligibleAt_push_iff (i : Fin 3) :
    machine.eligibleAt atPush t k i ↔
      i = 2 ∨ ∃ c, IsLetter c ∧ i.val = position c ∧ t.current = some c := by
  match i with
  | 0 =>
    change true && (t.current == some 'a') ↔ _
    simp [IsLetter, position]
  | 1 =>
    change true && (t.current == some 'b') ↔ _
    simp [IsLetter, position]
  | 2 => exact iff_of_true rfl (.inl rfl)

/-- With a letter under the cursor, `push` first pushes it and then guesses the middle. -/
theorem exploresTo_push_letter (hc : IsLetter c) (ht : t.current = some c)
    (hq : machine.ExploresTo depth atShift t (k.push c) (h.push ⟨"push", "shift", position c⟩) q)
    (hq' : machine.ExploresTo depth atMatch t k (h.push ⟨"push", "match", 2⟩) q') :
    machine.ExploresTo (depth + 1) atPush t k h (q.or q') := by
  have hexplore : machine.ExploresTo (depth + 1) atPush t k h
      (((List.finRange 3).filter (machine.eligibleAt atPush t k)).findSome?
        fun i : Fin 3 => if i = 2 then q' else q) := by
    refine Machine.exploresTo_of_eligible rfl rewinds_machine
      ⟨(2 : Fin 3), (eligibleAt_push_iff 2).2 (.inl rfl)⟩ fun i hi => ?_
    rcases (eligibleAt_push_iff i).1 hi with rfl | ⟨c', hc', hi', ht'⟩
    · exact hq'
    · obtain rfl : c = c' := Option.some.inj (ht.symm.trans ht')
      rcases hc with rfl | rfl
      · obtain rfl : i = (0 : Fin 3) := Fin.ext hi'
        exact hq
      · obtain rfl : i = (1 : Fin 3) := Fin.ext hi'
        exact hq
  have hfirst : ∀ p : Fin 3 → Bool, p 2 → (p 0 = true ∧ p 1 = false ∨ p 0 = false ∧ p 1 = true) →
      ((List.finRange 3).filter p).findSome? (fun i => if i = 2 then q' else q) = q.or q' := by
    intro p hmiddle hletter
    have hpositions : List.finRange 3 = [0, 1, 2] := rfl
    rcases hletter with ⟨ha, hb⟩ | ⟨ha, hb⟩ <;> cases q <;>
      simp [hpositions, ha, hb, hmiddle]
  have hletter : ((t.current == some 'a') = true ∧ (t.current == some 'b') = false) ∨
      ((t.current == some 'a') = false ∧ (t.current == some 'b') = true) := by
    rw [ht]
    rcases hc with rfl | rfl
    · exact .inl ⟨rfl, rfl⟩
    · exact .inr ⟨rfl, rfl⟩
  exact hfirst (machine.eligibleAt atPush t k) rfl hletter ▸ hexplore

/-- Without a letter under the cursor, `push` guesses the middle. -/
theorem exploresTo_push_other (ht : ∀ c, IsLetter c → t.current ≠ some c)
    (hq : machine.ExploresTo depth atMatch t k (h.push ⟨"push", "match", 2⟩) q) :
    machine.ExploresTo (depth + 1) atPush t k h q := by
  have heligible : machine.eligibleAt atPush t k (2 : Fin 3) :=
    (eligibleAt_push_iff 2).2 (.inl rfl)
  have hunique (j : Fin 3) (hj : machine.eligibleAt atPush t k j) : j = 2 := by
    refine ((eligibleAt_push_iff j).1 hj).resolve_right ?_
    rintro ⟨c, hc, -, hcurrent⟩
    exact ht c hc hcurrent
  exact Machine.exploresTo_of_unique rfl rewinds_machine heligible hunique hq

/-- **From `match` on,** the letters on the stack are matched, from top to bottom. -/
theorem exploresTo_match (w : List Char) (hs : ∀ c ∈ s, IsLetter c) (hw : t.remaining = w)
    (hdepth : 2 * w.length < depth) :
    machine.ExploresTo depth atMatch t ⟨s⟩ h
      (if w = s then some (h.extend (w.flatMap matchMoves)) else none) := by
  induction w generalizing depth t s h with
  | nil =>
    obtain ⟨depth, rfl⟩ : ∃ d, depth = d + 1 := ⟨depth - 1, by omega⟩
    have hnone : ∀ c, IsLetter c → s.head? = some c → t.current ≠ some c := fun c _ _ ht => by
      cases (Tape.current_of_remaining_nil hw).symm.trans ht
    simpa [hw, eq_comm] using exploresTo_match_impasse (h := h) hnone
  | cons x w ih =>
    obtain ⟨hcurrent, hw'⟩ := Tape.current_of_remaining hw
    obtain ⟨depth, rfl⟩ : ∃ d, depth = d + 2 :=
      ⟨depth - 2, by rw [List.length_cons] at hdepth; omega⟩
    -- Only the letter on top of the stack lets matching go on.
    by_cases hx : IsLetter x ∧ s.head? = some x
    · obtain ⟨hletter, hhead⟩ := hx
      obtain ⟨s, rfl⟩ := List.head?_eq_some_iff.1 hhead
      have hrest : machine.ExploresTo depth atMatch (eat t) ⟨s⟩
          ((h.push ⟨"match", "reduce", position x⟩).push ⟨"reduce", "match", 0⟩) _ :=
        ih (fun c hc => hs c (List.mem_cons_of_mem x hc)) hw'
          (by rw [List.length_cons] at hdepth; omega)
      have hfound := exploresTo_match_letter hletter hcurrent (exploresTo_reduce hrest)
      simpa [Path.extend_push, matchMoves] using hfound
    · have hnone : ∀ c, IsLetter c → s.head? = some c → t.current ≠ some c := by
        intro c hc hhead ht
        obtain rfl : x = c := Option.some.inj (hcurrent.symm.trans ht)
        exact hx ⟨hc, hhead⟩
      have hne : x :: w ≠ s := by
        rintro rfl
        exact hx ⟨hs x List.mem_cons_self, rfl⟩
      simpa [hw, hne] using exploresTo_match_impasse (h := h) hnone

/-- Without a letter under the cursor, the middle can only be right here. -/
theorem exists_exploresTo_push_of_other (w : List Char) (hs : ∀ c ∈ s, IsLetter c)
    (hw : t.remaining = w) (hother : ∀ c, IsLetter c → w.head? ≠ some c)
    (hdepth : 2 * w.length < depth) :
    ∃ q, machine.ExploresTo (depth + 1) atPush t ⟨s⟩ h q ∧ ∀ p, q = some p ↔
      ∃ u, Turns u s w ∧ p = h.extend (moves u (u.reverse ++ s)) := by
  have hcurrent : ∀ c, IsLetter c → t.current ≠ some c := by
    rwa [Tape.current_eq_head?, hw]
  refine ⟨_, exploresTo_push_other hcurrent (exploresTo_match w hs hw hdepth), fun p => ?_⟩
  rw [middle_eq_some_iff]
  refine ⟨fun ⟨hmid, hp⟩ => ⟨[], turns_nil_iff.2 hmid, hp⟩, fun ⟨u, hu, hp⟩ => ?_⟩
  cases u with
  | nil => exact ⟨turns_nil_iff.1 hu, hp⟩
  | cons x u =>
    obtain ⟨v, rfl, hx, -⟩ := turns_cons_iff.1 hu
    exact absurd rfl (hother x hx)

/-- **From `push` on,** the machine accepts if a word follows, then its reverse, and then what is on
the stack; the middle is guessed after the word. -/
theorem exists_exploresTo_push (w : List Char) (hs : ∀ c ∈ s, IsLetter c) (hw : t.remaining = w)
    (hdepth : 2 * w.length + 1 < depth) :
    ∃ q, machine.ExploresTo depth atPush t ⟨s⟩ h q ∧ ∀ p, q = some p ↔
      ∃ u, Turns u s w ∧ p = h.extend (moves u (u.reverse ++ s)) := by
  induction w generalizing depth t s h with
  | nil =>
    obtain ⟨depth, rfl⟩ : ∃ d, depth = d + 1 := ⟨depth - 1, by omega⟩
    have hother : ∀ c, IsLetter c → ([] : List Char).head? ≠ some c := fun c _ h => by cases h
    exact exists_exploresTo_push_of_other [] hs hw hother (Nat.lt_of_succ_lt_succ hdepth)
  | cons x w ih =>
    obtain ⟨depth, rfl⟩ : ∃ d, depth = d + 2 := ⟨depth - 2, by omega⟩
    by_cases hx : IsLetter x
    · obtain ⟨hcurrent, hw'⟩ := Tape.current_of_remaining hw
      have hs' : ∀ c ∈ x :: s, IsLetter c := List.forall_mem_cons.2 ⟨hx, hs⟩
      obtain ⟨q, hq, hiff⟩ : ∃ q, machine.ExploresTo depth atPush (eat t) ⟨x :: s⟩
          ((h.push ⟨"push", "shift", position x⟩).push ⟨"shift", "push", 0⟩) q ∧ _ :=
        ih hs' hw' (by rw [List.length_cons] at hdepth; omega)
      refine ⟨_, exploresTo_push_letter hx hcurrent (exploresTo_shift hq)
        (exploresTo_match (x :: w) hs hw (by omega)), fun p => ?_⟩
      rw [Option.or_eq_some_iff, hiff, middle_eq_some_iff]
      constructor
      · rintro (⟨u, hu, rfl⟩ | ⟨-, hmid, rfl⟩)
        · exact ⟨x :: u, turns_cons_iff.2 ⟨w, rfl, hx, hu⟩, by simp [extend_moves_cons]⟩
        · exact ⟨[], turns_nil_iff.2 hmid, rfl⟩
      · rintro ⟨u, hu, rfl⟩
        cases u with
        | nil =>
          have hmid : x :: w = s := turns_nil_iff.1 hu
          -- What is on the stack is all that remains, so it cannot come after a longer word.
          refine .inr ⟨Option.eq_none_iff_forall_ne_some.2 fun p hp => ?_, hmid, rfl⟩
          obtain ⟨u, hu, -⟩ := (hiff p).1 hp
          have hlength := congrArg List.length hu.2
          simp only [← hmid, List.length_append, List.length_reverse, List.length_cons] at hlength
          omega
        | cons y u =>
          obtain ⟨v, hv, -, hu⟩ := turns_cons_iff.1 hu
          obtain ⟨rfl, rfl⟩ := List.cons.inj hv
          exact .inl ⟨u, hu, by simp [extend_moves_cons]⟩
    · have hother : ∀ c, IsLetter c → (x :: w).head? ≠ some c := by
        rintro c hc ⟨⟩
        exact hx hc
      exact exists_exploresTo_push_of_other (x :: w) hs hw hother (Nat.lt_of_succ_lt_succ hdepth)

end Explore

end Palindrome

/-- **The palindrome machine recognises exactly the words followed by their reverse:** a search ends
on every text, and accepts on the path that pushes the word, guesses the middle and matches the
rest. -/
theorem palindromes_recognised (text : String) :
    ∃ turns r, Palindrome.machine.search {} (Tape.ofString text) turns = some r ∧
      (r.outcome = .accepted ↔
        ∃ w, (∀ c ∈ w, Palindrome.IsLetter c) ∧ text.toList = w ++ w.reverse) ∧
      ∀ w, (∀ c ∈ w, Palindrome.IsLetter c) → text.toList = w ++ w.reverse →
        r.path = Palindrome.pathOf w := by
  obtain ⟨q, hq, hiff⟩ : ∃ q, Palindrome.machine.ExploresTo _ Palindrome.machine.initial
      (Tape.ofString text) .empty (.nil "push") q ∧ _ :=
    Palindrome.exists_exploresTo_push text.toList (List.forall_mem_nil _)
      (Tape.remaining_ofString text) (Nat.lt_succ_self _)
  obtain ⟨turns, r, hr, hfound⟩ := hq.exists_search
  have haccepts (w : List Char) (hw : ∀ c ∈ w, Palindrome.IsLetter c)
      (htext : text.toList = w ++ w.reverse) :
      r.outcome = .accepted ∧ r.path = Palindrome.pathOf w := by
    refine (hfound _).2 ((hiff _).2 ⟨w, ⟨hw, by rw [List.append_nil, htext]⟩, ?_⟩)
    rw [List.append_nil, Palindrome.pathOf]
  refine ⟨turns, r, hr, ⟨fun ho => ?_, fun ⟨w, hw, htext⟩ => (haccepts w hw htext).1⟩,
    fun w hw htext => (haccepts w hw htext).2⟩
  obtain ⟨w, ⟨hw, htext⟩, -⟩ := (hiff _).1 ((hfound r.path).1 ⟨ho, rfl⟩)
  exact ⟨w, hw, by rwa [List.append_nil] at htext⟩

/-- In `abba` the middle is after `ab`. -/
theorem palindromes_recognised_abba :
    ∃ turns r, Palindrome.machine.search {} (Tape.ofString "abba") turns = some r ∧
      r.outcome = .accepted ∧ r.path.moves.toList =
        [⟨"push", "shift", 0⟩, ⟨"shift", "push", 0⟩, ⟨"push", "shift", 1⟩, ⟨"shift", "push", 0⟩,
          ⟨"push", "match", 2⟩, ⟨"match", "reduce", 1⟩, ⟨"reduce", "match", 0⟩,
          ⟨"match", "reduce", 0⟩, ⟨"reduce", "match", 0⟩] := by
  have hletters : ∀ c ∈ ['a', 'b'], Palindrome.IsLetter c := by simp [Palindrome.IsLetter]
  have htext : "abba".toList = ['a', 'b'] ++ ['a', 'b'].reverse := rfl
  obtain ⟨turns, r, hr, haccepts, hpath⟩ := palindromes_recognised "abba"
  refine ⟨turns, r, hr, haccepts.2 ⟨['a', 'b'], hletters, htext⟩, ?_⟩
  rw [hpath ['a', 'b'] hletters htext]
  rfl

end StateMachine
