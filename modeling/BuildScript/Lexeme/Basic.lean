/-
Module: BuildScript.Lexeme.Basic
Layer: lexemes
Purpose: The pieces that a source is cut into before any word is recognised: a kind and a byte length.
  Blank space and comments are pieces too, so the lengths add up to the length of the source, and a
  piece needs no position of its own.
Main exports: Lexeme, Lexeme.Kind, Lexeme.Kind.code, Lexeme.Kind.text?, Lexeme.Kind.isTrivia
-/
import BuildScript.Source.Radix
import BuildScript.Vocabulary.Punct
import BuildScript.Vocabulary.Quoting

namespace BuildScript

/-- What a piece of source is. -/
inductive Lexeme.Kind where
  /-- A letter or underscore and the word bytes behind it. -/
  | word
  | number (radix : Radix)
  | string (quoting : Quoting)
  | punct (sign : Punct)
  /-- White space and continued lines. -/
  | space
  /-- From a number sign up to, not including, the line feed. -/
  | comment
  /-- A character that begins nothing, a zero byte inside the source included. -/
  | invalidChar
  /-- A string without its closing mark. -/
  | unterminated (quoting : Quoting)
  /-- A radix mark without digits, or digits glued to something that is no boundary. -/
  | malformedNumber
  /-- An exclamation mark without an equals sign. -/
  | loneBang
  /-- The end of the source. -/
  | finish
deriving DecidableEq, Repr, Inhabited

namespace Lexeme.Kind

/-- Code of a kind. Families share a range: words and literals below 16, operators 32 to 63, brackets
    80 to 95, trivia 112 to 127, errors 240 to 254, and the end 255. -/
def code : Lexeme.Kind → Nat
  | .word => 0
  | .number .decimal => 1
  | .number .binary => 2
  | .number .octal => 3
  | .number .hexadecimal => 4
  | .string .single => 5
  | .string .triple => 6
  | .punct .plus => 32
  | .punct .minus => 33
  | .punct .star => 34
  | .punct .slash => 35
  | .punct .percent => 36
  | .punct .plusEq => 37
  | .punct .minusEq => 38
  | .punct .starEq => 39
  | .punct .slashEq => 40
  | .punct .percentEq => 41
  | .punct .eq => 42
  | .punct .eqEq => 43
  | .punct .bangEq => 44
  | .punct .less => 45
  | .punct .lessEq => 46
  | .punct .greater => 47
  | .punct .greaterEq => 48
  | .punct .dot => 49
  | .punct .colon => 50
  | .punct .comma => 51
  | .punct .question => 52
  | .punct .leftParen => 80
  | .punct .rightParen => 81
  | .punct .leftBrace => 82
  | .punct .rightBrace => 83
  | .punct .leftBracket => 84
  | .punct .rightBracket => 85
  | .space => 112
  | .comment => 113
  | .invalidChar => 240
  | .unterminated .single => 241
  | .unterminated .triple => 242
  | .malformedNumber => 243
  | .loneBang => 244
  | .finish => 255

/-- The source text of every lexeme of the kind, where there is only one. -/
def text? : Lexeme.Kind → Option String
  | .punct sign => some sign.text
  | _ => none

/-- Whether the kind may stand between two tokens. -/
def isTrivia : Lexeme.Kind → Bool
  | .space | .comment => true
  | _ => false

end Lexeme.Kind

/-- One piece of source. -/
structure Lexeme where
  kind : Lexeme.Kind
  /-- Length in bytes. -/
  length : Nat
deriving DecidableEq, Repr, Inhabited

end BuildScript
