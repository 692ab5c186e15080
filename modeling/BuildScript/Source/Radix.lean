/-
Module: BuildScript.Source.Radix
Layer: source text
Purpose: The four number systems a literal can be written in: the letter that announces one after a
  leading zero, its digits, and the value of a digit.
Main exports: Radix, base, ofBase, ofMarker?, isDigit, digit?
-/
import BuildScript.Source.Byte

namespace BuildScript

/-- Number system of a literal. -/
inductive Radix where
  | binary
  | octal
  | decimal
  | hexadecimal
deriving DecidableEq, Repr, Inhabited

namespace Radix

/-- How many digits the system has. -/
def base : Radix → Nat
  | .binary => 2
  | .octal => 8
  | .decimal => 10
  | .hexadecimal => 16

/-- The system with `n` digits; every number without a system of its own means decimal. -/
def ofBase : Nat → Radix
  | 2 => .binary
  | 8 => .octal
  | 16 => .hexadecimal
  | _ => .decimal

/-- The system that a letter announces when it follows a leading zero. -/
def ofMarker? (b : UInt8) : Option Radix :=
  if b == 'b'.toUInt8 then some .binary
  else if b == 'o'.toUInt8 then some .octal
  else if b == 'x'.toUInt8 then some .hexadecimal
  else none

/-- Whether a byte is a digit of the system. Hexadecimal letters may have either case. -/
def isDigit : Radix → UInt8 → Bool
  | .binary, b => 48 ≤ b && b ≤ 49
  | .octal, b => 48 ≤ b && b ≤ 55
  | .decimal, b => Byte.isDigit b
  | .hexadecimal, b => Byte.isDigit b || (65 ≤ b && b ≤ 70) || (97 ≤ b && b ≤ 102)

/-- The value of a digit of the system. -/
def digit? (r : Radix) (b : UInt8) : Option Nat :=
  if r.isDigit b then
    some (if b ≤ 57 then b.toNat - 48 else if b ≤ 70 then b.toNat - 55 else b.toNat - 87)
  else none

end Radix

end BuildScript
