/-
Module: BuildScript.Token.Terminal
Layer: tokens
Purpose: What the grammar tells tokens apart by. Where a token stands, how its string is quoted and which
  number system its number is written in make no difference to the program, so none of this is left.
Main exports: Numeral.value?, Terminal, Token.terminal?, terminals
-/
import BuildScript.Token.Lexer

namespace BuildScript

/-!
### Numbers
-/

namespace Numeral

/-- The integer as a 64-bit number, if it is one. -/
def fit? (n : Int) : Option Int64 :=
  if Int64.minValue.toInt ≤ n ∧ n ≤ Int64.maxValue.toInt then some (Int64.ofInt n) else none

/-- The product, if it is a 64-bit number. -/
def mul? (a b : Int64) : Option Int64 :=
  fit? (a.toInt * b.toInt)

/-- The sum, if it is a 64-bit number. -/
def add? (a b : Int64) : Option Int64 :=
  fit? (a.toInt + b.toInt)

/-- The number read so far with one more digit behind it, if it is a 64-bit number. -/
def push? (radix : Radix) (read : Int64) (b : UInt8) : Option Int64 := do
  let scaled ← mul? read (Int64.ofNat radix.base)
  let digit ← radix.digit? b
  add? scaled (Int64.ofNat digit)

/-- The value of a row of digits, if there is a digit and the value is a 64-bit number. -/
def value? (radix : Radix) (digits : String) : Option Int64 :=
  match digits.toUTF8.data.toList with
  | [] => none
  | bytes => bytes.foldlM (push? radix) 0

end Numeral

/-!
### Terminals
-/

/-- A token as the grammar sees it. The end of the source is no terminal but the end of the list. -/
inductive Terminal where
  | keyword (word : Keyword)
  | punct (sign : Punct)
  | name (text : String)
  /-- A number with its value, or with none if it is out of range. -/
  | number (value : Option Int64)
  | string (content : String)
  /-- Source that is no token. No phrase of the grammar has it. -/
  | invalid
deriving DecidableEq, Repr, Inhabited

/-- The token as the grammar sees it. -/
def Token.terminal? (t : Token) : Option Terminal :=
  match t.kind with
  | .finish => none
  | .invalid => some .invalid
  | .keyword word => some (.keyword word)
  | .name => some (.name t.text)
  | .number radix => some (.number (Numeral.value? radix t.text))
  | .string _ => some (.string t.text)
  | .punct sign => some (.punct sign)
  | .increment | .decrement => some .invalid

/-- The terminals of a source. -/
def terminals (source : String) : List Terminal :=
  (lex source).toList.filterMap Token.terminal?

end BuildScript
