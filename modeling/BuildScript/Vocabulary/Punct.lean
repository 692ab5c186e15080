/-
Module: BuildScript.Vocabulary.Punct
Layer: vocabulary
Purpose: The operators and brackets of the language, each with its one spelling. An operator is one byte,
  or one byte and an equals sign.
Main exports: Punct, Punct.all, Punct.text, Punct.ofByte?, Punct.withEquals?
-/

namespace BuildScript

/-- An operator, separator or bracket. -/
inductive Punct where
  | plus
  | minus
  | star
  | slash
  | percent
  | plusEq
  | minusEq
  | starEq
  | slashEq
  | percentEq
  | eq
  | eqEq
  | bangEq
  | less
  | lessEq
  | greater
  | greaterEq
  | dot
  | colon
  | comma
  | question
  | leftParen
  | rightParen
  | leftBrace
  | rightBrace
  | leftBracket
  | rightBracket
deriving DecidableEq, Repr, Inhabited

namespace Punct

/-- Every operator, separator and bracket. -/
def all : List Punct :=
  [.plus, .minus, .star, .slash, .percent, .plusEq, .minusEq, .starEq, .slashEq, .percentEq, .eq,
    .eqEq, .bangEq, .less, .lessEq, .greater, .greaterEq, .dot, .colon, .comma, .question,
    .leftParen, .rightParen, .leftBrace, .rightBrace, .leftBracket, .rightBracket]

/-- The spelling. -/
def text : Punct → String
  | .plus => "+"
  | .minus => "-"
  | .star => "*"
  | .slash => "/"
  | .percent => "%"
  | .plusEq => "+="
  | .minusEq => "-="
  | .starEq => "*="
  | .slashEq => "/="
  | .percentEq => "%="
  | .eq => "="
  | .eqEq => "=="
  | .bangEq => "!="
  | .less => "<"
  | .lessEq => "<="
  | .greater => ">"
  | .greaterEq => ">="
  | .dot => "."
  | .colon => ":"
  | .comma => ","
  | .question => "?"
  | .leftParen => "("
  | .rightParen => ")"
  | .leftBrace => "\x7b"
  | .rightBrace => "\x7d"
  | .leftBracket => "["
  | .rightBracket => "]"

/-- The one-byte signs. The exclamation mark is none: it only exists in front of an equals sign. -/
def singles : List Punct :=
  [.leftParen, .rightParen, .leftBrace, .rightBrace, .leftBracket, .rightBracket, .dot, .comma,
    .colon, .question, .plus, .minus, .star, .slash, .percent, .less, .greater, .eq]

/-- The byte of a one-byte sign; of a longer one, its first byte. -/
def leadByte : Punct → UInt8
  | .plus | .plusEq => '+'.toUInt8
  | .minus | .minusEq => '-'.toUInt8
  | .star | .starEq => '*'.toUInt8
  | .slash | .slashEq => '/'.toUInt8
  | .percent | .percentEq => '%'.toUInt8
  | .eq | .eqEq => '='.toUInt8
  | .bangEq => '!'.toUInt8
  | .less | .lessEq => '<'.toUInt8
  | .greater | .greaterEq => '>'.toUInt8
  | .dot => '.'.toUInt8
  | .colon => ':'.toUInt8
  | .comma => ','.toUInt8
  | .question => '?'.toUInt8
  | .leftParen => '('.toUInt8
  | .rightParen => ')'.toUInt8
  | .leftBrace => '{'.toUInt8
  | .rightBrace => '}'.toUInt8
  | .leftBracket => '['.toUInt8
  | .rightBracket => ']'.toUInt8

/-- The one-byte sign with this byte. -/
def ofByte? (b : UInt8) : Option Punct :=
  singles.find? fun p => p.leadByte == b

/-- The sign that `p` and an equals sign directly after it form. -/
def withEquals? : Punct → Option Punct
  | .plus => some .plusEq
  | .minus => some .minusEq
  | .star => some .starEq
  | .slash => some .slashEq
  | .percent => some .percentEq
  | .less => some .lessEq
  | .greater => some .greaterEq
  | .eq => some .eqEq
  | .plusEq | .minusEq | .starEq | .slashEq | .percentEq | .eqEq | .bangEq | .lessEq | .greaterEq
  | .dot | .colon | .comma | .question | .leftParen | .rightParen | .leftBrace | .rightBrace
  | .leftBracket | .rightBracket => none

end Punct

end BuildScript
