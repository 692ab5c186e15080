/-
Module: BuildScript.Token.Fault
Layer: tokens
Purpose: Why a piece of source is no token: the defect, where it is, how it is told, and what to do about
  it.
Main exports: Defect, Defect.text, Defect.suggestion?, Fault, Fault.message
-/
import BuildScript.Source.Span
import BuildScript.Text.CharLiteral
import BuildScript.Vocabulary.Quoting

namespace BuildScript

/-- What is wrong with a piece of source. -/
inductive Defect where
  | unterminated (quoting : Quoting)
  | malformedNumber
  | loneBang
  | invalidCharacter (found : Char)
deriving DecidableEq, Repr, Inhabited

namespace Defect

/-- The defect in words. -/
def text : Defect → String
  | .unterminated .single => "unterminated string"
  | .unterminated .triple => "unterminated triple-quoted string"
  | .malformedNumber => "malformed number"
  | .loneBang => "unexpected `!`"
  | .invalidCharacter found => "invalid character " ++ Text.charLiteral found

/-- What mends the defect, where that is known. -/
def suggestion? : Defect → Option String
  | .unterminated .single => some "add a closing `'`"
  | .unterminated .triple => some "add a closing `'''`"
  | .malformedNumber => some "separate the number from the following word with a space"
  | .loneBang => some "use `not` for negation or `!=` for inequality"
  | .invalidCharacter found =>
      if found = '"' then some "strings use single quotes"
      else if found = ';' then some "statements need no terminator"
      else none

end Defect

/-- A defect and its place. -/
structure Fault where
  defect : Defect
  span : Span
deriving DecidableEq, Repr, Inhabited

/-- The defect in words, and its place. -/
def Fault.message (f : Fault) : String :=
  f.defect.text ++ " at " ++ f.span.text

end BuildScript
