/-
Module: BuildScript.Proofs.Token.Numeral
Layer: proofs about tokens
Purpose: The value that a row of digits is read with, digit by digit in 64 bits, against the value that the
  digits have by their positions. Multiplying and adding never go back below the range once they have
  left it, so a row is out of range exactly if its value is.
Main exports: Numeral.magnitude?, Numeral.value?_eq, Numeral.value?_nonneg
-/
import BuildScript.Proofs.Source.Bytes
import BuildScript.Token.Terminal

namespace BuildScript.Numeral

/-- The first number that is out of range. -/
def bound : Nat :=
  0x8000000000000000

/-- The number read so far with one more digit behind it, in the natural numbers. -/
def append? (radix : Radix) (read : Nat) (b : UInt8) : Option Nat :=
  (radix.digit? b).map (radix.base * read + ·)

/-- The value that a row of digits has by their positions, if there is a digit and nothing else. -/
def magnitude? (radix : Radix) (digits : String) : Option Nat :=
  match Text.bytes digits with
  | [] => none
  | bytes => bytes.foldlM (append? radix) 0

/-- The 64-bit number with the given value, if there is one. -/
def ofNat? (n : Nat) : Option Int64 :=
  if n < bound then some (Int64.ofNat n) else none

theorem value?_of_ne_nil {radix : Radix} {digits : String} (nonempty : Text.bytes digits ≠ []) :
    value? radix digits = (Text.bytes digits).foldlM (push? radix) 0 := by
  unfold value?
  split
  · contradiction
  · rfl

theorem magnitude?_of_ne_nil {radix : Radix} {digits : String} (nonempty : Text.bytes digits ≠ []) :
    magnitude? radix digits = (Text.bytes digits).foldlM (append? radix) 0 := by
  unfold magnitude?
  split
  · contradiction
  · rfl

theorem base_pos (radix : Radix) : 0 < radix.base := by
  cases radix <;> decide

/-- Every base is a number of 64 bits. -/
theorem base_lt (radix : Radix) : radix.base < bound := by
  cases radix <;> decide

/-- Every digit is a number of 64 bits. -/
theorem digit?_lt {radix : Radix} {b : UInt8} {d : Nat} (digit : radix.digit? b = some d) :
    d < bound := by
  unfold Radix.digit? at digit
  have small : b.toNat < 256 := b.toNat_lt
  unfold bound
  split at digit
  · simp only [Option.some.injEq] at digit
    subst digit
    split_ifs <;> omega
  · cases digit

/-- Checking a result against the largest number is the same as asking whether it fits. -/
theorem fit?_eq_ofNat? (n : Nat) : fit? n = ofNat? n := by
  unfold ofNat? fit?
  rw [Int64.toInt_minValue, Int64.toInt_maxValue]
  split_ifs with range small small
  · rfl
  · unfold bound at small
    omega
  · unfold bound at small
    omega
  · rfl

/-- A number that fits is not changed by being stored. -/
theorem toInt_ofNat {n : Nat} (small : n < bound) : (Int64.ofNat n).toInt = n :=
  Int64.toInt_ofNat_of_lt small

/-- One more digit is read as what it makes of the value. -/
theorem push?_ofNat (radix : Radix) {n : Nat} (small : n < bound) (b : UInt8) :
    push? radix (Int64.ofNat n) b = (append? radix n b).bind ofNat? := by
  have scaled : mul? (Int64.ofNat n) (Int64.ofNat radix.base) = ofNat? (radix.base * n) := by
    rw [mul?, toInt_ofNat small, toInt_ofNat (base_lt radix), Int.mul_comm]
    exact fit?_eq_ofNat? (radix.base * n)
  simp only [push?, append?, scaled, Option.bind_eq_bind]
  cases digit : radix.digit? b with
  | none => cases ofNat? (radix.base * n) <;> rfl
  | some d =>
      rw [Option.map_some, Option.bind_some]
      by_cases room : radix.base * n < bound
      · rw [ofNat?, if_pos room, Option.bind_some, Option.bind_some, add?, toInt_ofNat room,
          toInt_ofNat (digit?_lt digit)]
        exact fit?_eq_ofNat? (radix.base * n + d)
      · have beyond : ¬ radix.base * n + d < bound := by omega
        rw [ofNat?, ofNat?, if_neg room, if_neg beyond]
        rfl

/-- A row of digits has a value, whether that is in range or not. -/
theorem exists_magnitude? {radix : Radix} {digits : String} (nonempty : Text.bytes digits ≠ [])
    (right : ∀ b ∈ Text.bytes digits, radix.isDigit b = true) : ∃ n, magnitude? radix digits = some n := by
  have each (bytes : List UInt8) (right : ∀ b ∈ bytes, radix.isDigit b = true) (n : Nat) :
      ∃ m, bytes.foldlM (append? radix) n = some m := by
    induction bytes generalizing n with
    | nil => exact ⟨n, rfl⟩
    | cons b bytes ih =>
        obtain ⟨here, others⟩ := List.forall_mem_cons.mp right
        simpa [append?, Radix.digit?, here] using ih others _
  rw [magnitude?_of_ne_nil nonempty]
  exact each _ right 0

/-- What is out of range stays so, whatever digits follow. -/
theorem foldlM_append?_beyond (radix : Radix) (bytes : List UInt8) {n : Nat} (beyond : ¬ n < bound) :
    (bytes.foldlM (append? radix) n).bind ofNat? = none := by
  induction bytes generalizing n with
  | nil => simp [ofNat?, beyond]
  | cons b bytes ih =>
      rw [List.foldlM_cons]
      cases digit : radix.digit? b with
      | none => simp [append?, digit]
      | some d =>
          have grows : n ≤ radix.base * n := Nat.le_mul_of_pos_left n (base_pos radix)
          simpa [append?, digit] using ih (n := radix.base * n + d) (by omega)

/-- Reading digits in 64 bits gives the value by positions, or nothing if that is too large. -/
theorem foldlM_push? (radix : Radix) (bytes : List UInt8) {n : Nat} (small : n < bound) :
    bytes.foldlM (push? radix) (Int64.ofNat n) = (bytes.foldlM (append? radix) n).bind ofNat? := by
  induction bytes generalizing n with
  | nil => simp [ofNat?, small]
  | cons b bytes ih =>
      rw [List.foldlM_cons, List.foldlM_cons, push?_ofNat radix small]
      cases more : append? radix n b with
      | none => rfl
      | some m =>
          by_cases room : m < bound
          · simpa [ofNat?, room] using ih room
          · simpa [ofNat?, room] using (foldlM_append?_beyond radix bytes room).symm

/-- A row of digits is read as the value it has, as long as that is a 64-bit number. -/
theorem value?_eq (radix : Radix) (digits : String) :
    value? radix digits = (magnitude? radix digits).bind ofNat? := by
  by_cases empty : Text.bytes digits = []
  · have none_read : value? radix digits = none := by
      unfold value?
      rw [show digits.toUTF8.data.toList = [] from empty]
    rw [none_read, magnitude?, empty]
    rfl
  · rw [value?_of_ne_nil empty, magnitude?_of_ne_nil empty]
    exact foldlM_push? radix (Text.bytes digits) (n := 0) (by decide)

/-- No row of digits is read as a negative number. -/
theorem value?_nonneg {radix : Radix} {digits : String} {value : Int64}
    (read : value? radix digits = some value) : ¬ value < 0 := by
  rw [value?_eq, Option.bind_eq_some_iff] at read
  obtain ⟨n, -, fits⟩ := read
  unfold ofNat? at fits
  split_ifs at fits with small
  cases fits
  rw [Int64.lt_iff_toInt_lt, toInt_ofNat small]
  simp

end BuildScript.Numeral
