/-
Module: BuildScript.Proofs.Source.Remaining
Layer: proofs about source text
Purpose: A cursor told by the bytes around it: what stands behind it and what is still in front. Looking
  and moving are then operations on the bytes in front.
Main exports: Cursor.Between, Between.current, Between.forward, Between.skipWhile, Between.skipPast
-/
import BuildScript.Proofs.Source.Bytes
import BuildScript.Source.Cursor
import Mathlib.Data.List.GetD

namespace BuildScript

/-!
### Runs
-/

namespace Buffer

variable {buffer : Buffer} {content : List UInt8}

/-- A run of a class without the zero byte ends where the bytes of the content do not go on with it. -/
theorem Holds.runEnd_eq (h : buffer.Holds content) {inRun : UInt8 → Bool} (zero : inRun 0 = false)
    (steps i : Nat) (enough : content.length - i ≤ steps) :
    buffer.runEnd inRun steps i = i + ((content.drop i).takeWhile inRun).length := by
  induction steps generalizing i with
  | zero =>
      have beyond : content.length ≤ i := by omega
      simp [runEnd, List.drop_eq_nil_of_le beyond]
  | succ steps ih =>
      rw [runEnd, h.byteAt]
      by_cases inside : i < content.length
      · rw [List.drop_eq_getElem_cons inside, List.takeWhile_cons, List.getD_eq_getElem _ _ inside]
        split
        · rw [ih (i + 1) (by omega), List.length_cons]
          omega
        · rfl
      · have beyond : content.length ≤ i := Nat.not_lt.mp inside
        rw [List.getD_eq_default _ _ beyond, zero, List.drop_eq_nil_of_le beyond]
        rfl

/-- The needle stands in the buffer where the content goes on with it. -/
theorem Holds.holdsAt_iff (h : buffer.Holds content) (needle : List UInt8) (i : Nat)
    (inside : i ≤ content.length) : buffer.holdsAt needle i = true ↔ needle <+: content.drop i := by
  induction needle generalizing i with
  | nil => simp [holdsAt, h.length, inside]
  | cons b rest ih =>
      rw [holdsAt, h.byteAt, h.length]
      by_cases more : i < content.length
      · rw [List.drop_eq_getElem_cons more, List.getD_eq_getElem _ _ more, List.cons_prefix_cons,
          ← ih (i + 1) more]
        simp [more, eq_comm (a := b)]
      · have none_left : content.drop i = [] := List.drop_eq_nil_of_le (Nat.not_lt.mp more)
        simp [more, none_left]

/-- A search finds nothing where none of its places holds the needle. -/
theorem findWithin_eq_none {needle : List UInt8} {steps i : Nat}
    (misses : ∀ j, i ≤ j → j ≤ i + steps → buffer.holdsAt needle j = false) :
    buffer.findWithin needle steps i = none := by
  induction steps generalizing i with
  | zero => simp [findWithin, misses i]
  | succ steps ih =>
      rw [findWithin, misses i (Nat.le_refl _) (by omega)]
      exact ih fun j low high => misses j (by omega) (by omega)

end Buffer

namespace Cursor

theorem forward_forward (c : Cursor) (m n : Nat) : (c.forward m).forward n = c.forward (m + n) := by
  simp [forward, Nat.add_assoc]

/-!
### The bytes around a cursor
-/

/-- The source of the cursor is made of `before` and `rest`, and it stands between the two. -/
structure Between (c : Cursor) (before rest : List UInt8) : Prop where
  holds : c.buffer.Holds (before ++ rest)
  position : c.position = before.length

namespace Between

variable {c : Cursor} {before rest : List UInt8}

/-- Looking ahead is looking at the bytes in front, with zeros behind them. -/
theorem byteAt (h : c.Between before rest) (i : Nat) :
    c.buffer.byteAt (c.position + i) = rest.getD i 0 := by
  rw [h.holds.byteAt, h.position]
  rw [List.getD_append_right _ _ _ _ (Nat.le_add_right _ _), Nat.add_sub_cancel_left]

theorem current (h : c.Between before rest) : c.current = rest.headD 0 := by
  have byte := h.byteAt 0
  rw [Nat.add_zero] at byte
  rw [Cursor.current, byte]
  cases rest <;> rfl

theorem peek (h : c.Between before rest) : c.peek = rest.getD 1 0 :=
  h.byteAt 1

theorem peekSecond (h : c.Between before rest) : c.peekSecond = rest.getD 2 0 :=
  h.byteAt 2

/-- The end has been reached when nothing is left in front. -/
theorem isEnd (h : c.Between before rest) : c.isEnd = rest.isEmpty := by
  rw [Cursor.isEnd, h.current, h.holds.length, h.position]
  cases rest <;> simp

/-- The byte that comes next, or none at the end. -/
theorem current? (h : c.Between before rest) : c.current? = rest.head? := by
  rw [Cursor.current?, h.isEnd, h.current]
  cases rest <;> simp

/-- The source byte at the cursor, if there is one. -/
theorem byteAt? (h : c.Between before rest) : c.buffer.byteAt? c.position = rest.head? := by
  have byte := h.byteAt 0
  rw [Nat.add_zero] at byte
  rw [Buffer.byteAt?, byte, h.holds.length, h.position]
  cases rest <;> simp

/-!
### Moving
-/

/-- Moving on over bytes puts them behind the cursor. -/
theorem forward {w : List UInt8} (h : c.Between before (w ++ rest)) :
    (c.forward w.length).Between (before ++ w) rest where
  holds := by simpa [Cursor.forward] using h.holds
  position := by simp [Cursor.forward, h.position]

theorem step {b : UInt8} (h : c.Between before (b :: rest)) : c.step.Between (before ++ [b]) rest :=
  h.forward (w := [b])

/-- A run is skipped as far as its class reaches. -/
theorem skipWhile (h : c.Between before rest) (inRun : UInt8 → Bool) (zero : inRun 0 = false) :
    c.skipWhile inRun = c.forward (rest.takeWhile inRun).length := by
  have room := h.holds.room
  have ends := h.holds.runEnd_eq zero (c.buffer.bytes.size - c.position) c.position (by
    rw [h.position]
    omega)
  rw [Cursor.skipWhile, Cursor.forward, ends, h.position]
  simp

/-- The next `needle` stands behind `w`. -/
theorem distance?_eq_some {w needle : List UInt8} (h : c.Between before (w ++ needle ++ rest))
    (first : ∀ i < w.length, ¬ needle <+: (w ++ needle ++ rest).drop i) :
    c.distance? needle = some w.length := by
  have start : min c.position c.buffer.length = c.position := by
    rw [h.holds.length, h.position]
    simp
  have finds : ∀ i ≤ w.length, ∀ steps, w.length - i ≤ steps →
      c.buffer.findWithin needle steps (c.position + i) = some (c.position + w.length) := by
    intro i le
    induction n : w.length - i generalizing i with
    | zero =>
        intro steps _
        obtain rfl : i = w.length := by omega
        have holds : c.buffer.holdsAt needle (c.position + w.length) = true := by
          rw [h.holds.holdsAt_iff _ _ (by simp [h.position]), h.position]
          simp
        cases steps <;> simp [Buffer.findWithin, holds]
    | succ n ih =>
        intro steps enough
        have misses : c.buffer.holdsAt needle (c.position + i) = false := by
          rw [Bool.eq_false_iff, ne_eq, h.holds.holdsAt_iff _ _ (by simp [h.position]; omega), h.position]
          simpa using first i (by omega)
        cases steps with
        | zero => omega
        | succ steps =>
            simp only [Buffer.findWithin, misses]
            exact ih (i + 1) (by omega) (by omega) steps (by omega)
  have found := finds 0 (Nat.zero_le _) (c.buffer.length - c.position) (by
    rw [h.holds.length, h.position]
    simp)
  rw [Nat.add_zero] at found
  rw [distance?, start, Buffer.find?, found]
  simp

/-- There is no `needle` in front of the cursor. -/
theorem distance?_eq_none {needle : List UInt8} (h : c.Between before rest)
    (absent : ∀ i ≤ rest.length, ¬ needle <+: rest.drop i) : c.distance? needle = none := by
  have length : c.buffer.length = before.length + rest.length := by rw [h.holds.length, List.length_append]
  have start : min c.position c.buffer.length = before.length := by
    rw [length, h.position]
    omega
  have misses : ∀ i ≤ rest.length, c.buffer.holdsAt needle (before.length + i) = false := by
    intro i le
    rw [Bool.eq_false_iff, ne_eq, h.holds.holdsAt_iff _ _ (by simpa using le)]
    simpa using absent i le
  rw [distance?, start, Buffer.find?, Buffer.findWithin_eq_none, Option.map_none]
  intro j low high
  obtain ⟨i, rfl⟩ := Nat.exists_eq_add_of_le low
  exact misses i (by omega)

/-- The first mark that is found is skipped, together with what stands in front of it. -/
theorem skipPast {w needle : List UInt8} (h : c.Between before (w ++ needle ++ rest))
    (first : ∀ i < w.length, ¬ needle <+: (w ++ needle ++ rest).drop i) :
    c.skipPast needle = (true, c.forward (w.length + needle.length)) := by
  rw [Cursor.skipPast, h.distance?_eq_some first]

/-- Going to the end is moving on over all that is left. -/
theorem toEnd (h : c.Between before rest) : c.toEnd = c.forward rest.length := by
  rw [Cursor.toEnd, Cursor.forward, h.holds.length, h.position, List.length_append]

/-- The text in front of the cursor that has the bytes `s`. -/
theorem text {s : String} (h : c.Between before (Text.bytes s ++ rest)) :
    c.buffer.text c.position (c.position + (Text.bytes s).length) = s := by
  rw [h.position]
  apply Buffer.Holds.text rest
  simpa using h.holds

end Between

/-- The cursor in front of a source. -/
theorem between_ofSource (source : String) :
    (Buffer.ofSource source).cursor.Between [] (Text.bytes source) where
  holds := Buffer.holds_ofSource source
  position := rfl

/-- At the start of a source nothing is behind and all of it in front. -/
theorem between_cursorFrom_zero (source : String) :
    ((Buffer.ofSource source).cursorFrom 0).Between [] (Text.bytes source) where
  holds := Buffer.holds_ofSource source
  position := by simp [Buffer.cursorFrom]

end Cursor

end BuildScript
