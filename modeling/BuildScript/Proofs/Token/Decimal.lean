/-
Module: BuildScript.Proofs.Token.Decimal
Layer: proofs about tokens
Purpose: A number written in decimal is a row of digits that is read as the number again.
Main exports: Text.repr_digits, Numeral.magnitude?_repr, Numeral.value?_decimal
-/
import BuildScript.Proofs.Token.Numeral
import BuildScript.Text.Decimal

namespace BuildScript

namespace Text

/-- The byte of a digit. -/
def digitByte (d : Nat) : UInt8 :=
  UInt8.ofNat (48 + d)

/-- The character of a digit is a single byte. -/
theorem bytes_digitChar {d : Nat} (digit : d < 10) :
    bytes (String.ofList [d.digitChar]) = [digitByte d] := by
  have each : ∀ d < 10, bytes (String.ofList [d.digitChar]) = [digitByte d] := by decide
  exact each d digit

theorem bytes_repr_of_lt {n : Nat} (digit : n < 10) : bytes n.repr = [digitByte n] := by
  rw [Nat.repr_eq_ofList_toDigits, Nat.toDigits_of_lt_base digit, bytes_digitChar digit]

/-- The last digit of a number stands behind the digits of the rest. -/
theorem bytes_repr_of_le {n : Nat} (more : 10 ≤ n) :
    bytes n.repr = bytes (n / 10).repr ++ [digitByte (n % 10)] := by
  rw [Nat.repr_eq_ofList_toDigits, Nat.toDigits_of_base_le (by decide) more, String.ofList_append,
    bytes_append, bytes_digitChar (Nat.mod_lt _ (by decide)), Nat.repr_eq_ofList_toDigits]

theorem isDigit_digitByte {d : Nat} (digit : d < 10) : Byte.isDigit (digitByte d) = true := by
  have each : ∀ d < 10, Byte.isDigit (digitByte d) = true := by decide
  exact each d digit

/-- A number is written by digits alone, and by one at the least. -/
theorem repr_digits (n : Nat) : bytes n.repr ≠ [] ∧ ∀ b ∈ bytes n.repr, Byte.isDigit b = true := by
  induction n using Nat.strongRecOn with
  | ind n ih =>
      by_cases small : n < 10
      · rw [bytes_repr_of_lt small]
        simpa using isDigit_digitByte small
      · rw [bytes_repr_of_le (Nat.not_lt.mp small)]
        obtain ⟨-, digits⟩ := ih (n / 10) (by omega)
        constructor
        · simp
        · intro b member
          rcases List.mem_append.mp member with member | member
          · exact digits b member
          · obtain rfl := List.mem_singleton.mp member
            exact isDigit_digitByte (Nat.mod_lt _ (by decide))

end Text

namespace Numeral

/-- Reading one more digit makes ten times as much, and the digit, of what has been read. -/
theorem append?_digitByte {d : Nat} (digit : d < 10) (n : Nat) :
    append? .decimal n (Text.digitByte d) = some (10 * n + d) := by
  have value : ∀ d < 10, Radix.digit? .decimal (Text.digitByte d) = some d := by decide
  rw [append?, value d digit]
  rfl

/-- Reading digit after digit undoes writing them. -/
theorem foldlM_append?_repr (n : Nat) : (Text.bytes n.repr).foldlM (append? .decimal) 0 = some n := by
  induction n using Nat.strongRecOn with
  | ind n ih =>
      by_cases small : n < 10
      · rw [Text.bytes_repr_of_lt small]
        simpa using append?_digitByte small 0
      · rw [Text.bytes_repr_of_le (Nat.not_lt.mp small), List.foldlM_append, ih (n / 10) (by omega)]
        have last := append?_digitByte (Nat.mod_lt n (by decide)) (n / 10)
        simpa [Nat.div_add_mod] using last

/-- The decimal form of a number has the number as its value. -/
theorem magnitude?_repr (n : Nat) : magnitude? .decimal n.repr = some n := by
  rw [magnitude?_of_ne_nil (Text.repr_digits n).1, foldlM_append?_repr]

/-- A number that is not negative is read back from its decimal form. -/
theorem value?_decimal {value : Int64} (positive : ¬ value < 0) :
    value? .decimal (Text.decimal value) = some value := by
  have bounds : 0 ≤ value.toInt := by
    rw [Int64.lt_iff_toInt_lt] at positive
    simpa using positive
  have below : value.toInt < 2 ^ 63 := value.toInt_lt
  have small : value.toInt.natAbs < bound := by
    unfold bound
    omega
  have same : Int64.ofNat value.toInt.natAbs = value := by
    apply Int64.toInt_inj.mp
    rw [toInt_ofNat small]
    omega
  rw [Text.decimal, if_neg positive, value?_eq, magnitude?_repr, Option.bind_some, ofNat?, if_pos small, same]

end Numeral

end BuildScript
