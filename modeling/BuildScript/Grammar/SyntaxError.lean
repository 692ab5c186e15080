/-
Module: BuildScript.Grammar.SyntaxError
Layer: grammar
Purpose: Why a source is no program. A failed reading has one cause, the first that the grammar meets, and
  each cause has one text.
Main exports: SyntaxError, SyntaxError.message, ParseError, ParseError.message
-/

namespace BuildScript

/-- What the grammar finds wrong. -/
inductive SyntaxError where
  | assignmentTarget
  | assignmentValue
  | ternaryThen
  | ternaryColon
  | ternaryElse
  | orOperand
  | andOperand
  | equalityOperand
  | inAfterNot
  | relationalOperand
  | additiveOperand
  | multiplicativeOperand
  | unaryOperand
  | parenthesized
  | closingParen
  | numberRange
  | arrayItem
  | arrayClose
  | dictionaryKey
  | dictionaryColon
  | dictionaryValue
  | dictionaryClose
  | fieldMissing
  | fieldName
  | subscriptIndex
  | subscriptClose
  | argument
  | keywordName
  | keywordValue
  | keywordMissing
  | argumentsClose
  | predicate
  | endif
  | loopVariable
  | loopColon
  | loopIterable
  | endforeach
  | endOfInput
deriving DecidableEq, Repr, Inhabited

namespace SyntaxError

/-- The text of the cause. -/
def message : SyntaxError → String
  | .assignmentTarget => "assignment target must be an id"
  | .assignmentValue => "assignment: expected expression"
  | .ternaryThen => "ternary: expected true clause"
  | .ternaryColon => "ternary: expected colon"
  | .ternaryElse => "ternary: expected false clause"
  | .orOperand => "logical or: expected expression"
  | .andOperand => "logical and: expected expression"
  | .equalityOperand => "equality: expected expression"
  | .inAfterNot => "expected `in' after `not'"
  | .relationalOperand => "relational: expected expression"
  | .additiveOperand => "additive: expected expression"
  | .multiplicativeOperand => "multiplicative: expected expression"
  | .unaryOperand => "unary: expected expression"
  | .parenthesized => "invalid expression"
  | .closingParen => "expected closing paren"
  | .numberRange => "number: integer constant out of range"
  | .arrayItem => "array: expected expression"
  | .arrayClose => "array: expected closing bracket"
  | .dictionaryKey => "dictionary: expected key"
  | .dictionaryColon => "dictionary: expected colon"
  | .dictionaryValue => "dictionary: expected value"
  | .dictionaryClose => "dictionary: expected closing brace"
  | .fieldMissing => "expected field name"
  | .fieldName => "field name must be plain id"
  | .subscriptIndex => "subscript: expected expression"
  | .subscriptClose => "subscript: expected closing bracket"
  | .argument => "application: expected argument"
  | .keywordName => "application: expected kwarg name"
  | .keywordValue => "application: expected kwarg value"
  | .keywordMissing => "application: expected keyword"
  | .argumentsClose => "application: expected closing paren"
  | .predicate => "if: expected predicate"
  | .endif => "if: expected endif"
  | .loopVariable => "foreach: expected identifier"
  | .loopColon => "foreach: expected colon"
  | .loopIterable => "foreach: expected expression"
  | .endforeach => "foreach: expected endforeach"
  | .endOfInput => "program: expected end of input"

end SyntaxError

/-- Why a reading fails. -/
inductive ParseError where
  | rejected (cause : SyntaxError)
  /-- The program has more nodes than the limit allows. -/
  | outOfMemory
deriving DecidableEq, Repr, Inhabited

/-- The text of the failure. -/
def ParseError.message : ParseError → String
  | .rejected cause => cause.message
  | .outOfMemory => "not enough memory"

end BuildScript
