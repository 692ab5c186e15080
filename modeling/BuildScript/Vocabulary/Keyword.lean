/-
Module: BuildScript.Vocabulary.Keyword
Layer: vocabulary
Purpose: The reserved words of the language. They are case-sensitive: `If` and `TRUE` are names.
Main exports: Keyword, Keyword.all, Keyword.text, Keyword.ofText?, isReserved
-/

namespace BuildScript

/-- A reserved word. -/
inductive Keyword where
  | kwAnd
  | kwBreak
  | kwContinue
  | kwElif
  | kwElse
  | kwEndforeach
  | kwEndif
  | kwFalse
  | kwForeach
  | kwIf
  | kwIn
  | kwNot
  | kwOr
  | kwTrue
deriving DecidableEq, Repr, Inhabited

namespace Keyword

/-- Every reserved word, in alphabetical order. -/
def all : List Keyword :=
  [.kwAnd, .kwBreak, .kwContinue, .kwElif, .kwElse, .kwEndforeach, .kwEndif, .kwFalse, .kwForeach,
    .kwIf, .kwIn, .kwNot, .kwOr, .kwTrue]

/-- The word itself. -/
def text : Keyword → String
  | .kwAnd => "and"
  | .kwBreak => "break"
  | .kwContinue => "continue"
  | .kwElif => "elif"
  | .kwElse => "else"
  | .kwEndforeach => "endforeach"
  | .kwEndif => "endif"
  | .kwFalse => "false"
  | .kwForeach => "foreach"
  | .kwIf => "if"
  | .kwIn => "in"
  | .kwNot => "not"
  | .kwOr => "or"
  | .kwTrue => "true"

/-- The reserved word spelt `word`. -/
def ofText? (word : String) : Option Keyword :=
  all.find? fun k => k.text == word

end Keyword

/-- Whether a word is reserved, so that no name can be spelt like it. -/
def isReserved (word : String) : Bool :=
  (Keyword.ofText? word).isSome

end BuildScript
