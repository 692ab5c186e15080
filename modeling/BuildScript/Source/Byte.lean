/-
Module: BuildScript.Source.Byte
Layer: source text
Purpose: The byte classes of the language. Every class is a set of ASCII bytes, so a byte of a longer
  UTF-8 character belongs to none of them; a word, a number or an operator therefore never ends inside
  a character.
Main exports: isSpace, isBlank, isPunct, isWordStart, isWordByte, isBoundary, charWidth
-/

namespace BuildScript.Byte

/-- The single quote that opens and closes strings. -/
def quote : UInt8 := 39

/-- The line feed that ends a comment. -/
def newline : UInt8 := 10

/-- The number sign that opens a comment. -/
def hash : UInt8 := 35

/-- The exclamation mark, half of the inequality sign. -/
def bang : UInt8 := 33

/-- The equals sign, which extends the operator in front of it. -/
def equals : UInt8 := 61

/-- White space: the space and the five controls from tab to carriage return. -/
def isSpace (b : UInt8) : Bool :=
  b == 32 || (9 ≤ b && b ≤ 13)

/-- What may stand between two tokens. A backslash marks a continued line and is skipped like space. -/
def isBlank (b : UInt8) : Bool :=
  isSpace b || b == 92

/-- The bytes that operators and brackets are made of. -/
def punctuators : List UInt8 :=
  ['(', ')', '{', '}', '[', ']', '.', ',', ':', '?', '+', '-', '*', '/', '%', '=', '<', '>', '!'].map
    Char.toUInt8

/-- Whether a byte can begin or continue an operator or bracket. -/
def isPunct (b : UInt8) : Bool :=
  punctuators.contains b

/-- A decimal digit. -/
def isDigit (b : UInt8) : Bool :=
  48 ≤ b && b ≤ 57

/-- An ASCII letter or the underscore: the first byte of a word. -/
def isWordStart (b : UInt8) : Bool :=
  (65 ≤ b && b ≤ 90) || (97 ≤ b && b ≤ 122) || b == 95

/-- A letter, a digit or the underscore: any later byte of a word. -/
def isWordByte (b : UInt8) : Bool :=
  isWordStart b || isDigit b

/-- Whether a reserved word or a number may end in front of `next`, `none` being the end of input. -/
def isBoundary : Option UInt8 → Bool
  | none => true
  | some b => isSpace b || isPunct b

/-- Bytes in the UTF-8 character that `b` begins. A byte that begins none counts as one. -/
def charWidth (b : UInt8) : Nat :=
  if 0xC0 ≤ b && b ≤ 0xDF then 2
  else if 0xE0 ≤ b && b ≤ 0xEF then 3
  else if 0xF0 ≤ b && b ≤ 0xF7 then 4
  else 1

end BuildScript.Byte
