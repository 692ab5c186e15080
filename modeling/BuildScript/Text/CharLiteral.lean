/-
Module: BuildScript.Text.CharLiteral
Layer: text
Purpose: Characters as diagnostics quote them: between single quotes, with short escapes for the zero
  character, tab, line feed, carriage return, backslash and single quote, and the code point in braces
  for everything that has no form of its own.
Main exports: charLiteral
-/
import BuildScript.Text.Printable

namespace BuildScript.Text

/-- The code point in lower-case hexadecimal without leading zeros. -/
def hexDigits (n : Nat) : String :=
  String.ofList (Nat.toDigits 16 n)

/-- The character between the quotes. -/
def charBody (c : Char) : String :=
  match c.toNat with
  | 0 => "\\0"
  | 9 => "\\t"
  | 10 => "\\n"
  | 13 => "\\r"
  | 39 => "\\'"
  | 92 => "\\\\"
  | n => if isPrintable c then c.toString else "\\u\x7b" ++ hexDigits n ++ "\x7d"

/-- The quoted character. -/
def charLiteral (c : Char) : String :=
  "'" ++ charBody c ++ "'"

end BuildScript.Text
