/-
Module: BuildScript.Token.Basic
Layer: tokens
Purpose: What the grammar reads: words told apart into reserved words and names, literals without their
  marks, and signs. Blank space and comments are gone.
Main exports: Token, Token.Kind, Token.Kind.describe, Token.Kind.isKeyword, Token.Kind.radix?
-/
import BuildScript.Lexeme.Basic
import BuildScript.Source.Span
import BuildScript.Vocabulary.Keyword

namespace BuildScript

/-- What a token is. -/
inductive Token.Kind where
  /-- The end of the source. -/
  | finish
  /-- Source that is no token. -/
  | invalid
  | keyword (word : Keyword)
  | name
  | number (radix : Radix)
  | string (quoting : Quoting)
  | punct (sign : Punct)
  /-- Reserved; no source has it. -/
  | increment
  /-- Reserved; no source has it. -/
  | decrement
deriving DecidableEq, Repr, Inhabited

namespace Token.Kind

/-- How diagnostics call a token of the kind. -/
def describe : Token.Kind → String
  | .finish => "end of input"
  | .invalid => "invalid token"
  | .keyword word => "`" ++ word.text ++ "`"
  | .name => "identifier"
  | .number .binary => "binary number"
  | .number .octal => "octal number"
  | .number .decimal => "decimal number"
  | .number .hexadecimal => "hexadecimal number"
  | .string .single => "string"
  | .string .triple => "triple-quoted string"
  | .punct sign => "`" ++ sign.text ++ "`"
  | .increment => "`++`"
  | .decrement => "`--`"

/-- Whether the kind is a reserved word. -/
def isKeyword : Token.Kind → Bool
  | .keyword _ => true
  | _ => false

/-- The number system of a number. -/
def radix? : Token.Kind → Option Radix
  | .number radix => some radix
  | _ => none

end Token.Kind

/-- One token. -/
structure Token where
  kind : Token.Kind
  /-- The digits of a number without its radix mark, the content of a string without its quotes, and
      the source text of every other token. -/
  text : String
  /-- Where the whole token stands. -/
  span : Span
deriving DecidableEq, Repr, Inhabited

/-- Whether nothing comes after the token: it is the end of the source, or no token at all. -/
def Token.isLast (t : Token) : Bool :=
  t.kind == .finish || t.kind == .invalid

end BuildScript
