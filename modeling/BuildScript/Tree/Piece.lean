/-
Module: BuildScript.Tree.Piece
Layer: trees
Purpose: What a written program consists of: words, signs, literals, and the spaces between them. A text
  is joined from its pieces, and the pieces tell which tokens it is meant to be read as. Parentheses
  put around an operand that binds looser than its place demands are pieces of their own, apart from
  those that belong to a call.
Main exports: Piece, Piece.text, Piece.join, Piece.separated, and piece and symbol of each family of
  operators
-/
import BuildScript.Text.Decimal
import BuildScript.Tree.Operator
import BuildScript.Vocabulary.Keyword
import BuildScript.Vocabulary.Punct
import BuildScript.Vocabulary.Quoting

namespace BuildScript

/-- A piece of a written program. -/
inductive Piece where
  | keyword (word : Keyword)
  | sign (sign : Punct)
  /-- The parenthesis in front of an operand that binds looser than its place demands. -/
  | opening
  /-- The parenthesis behind such an operand. -/
  | closing
  | name (text : String)
  | number (value : Int64)
  | string (quoting : Quoting) (content : String)
  | space
deriving DecidableEq, Repr, Inhabited

namespace Piece

/-- The text of a piece. -/
def text : Piece → String
  | .keyword k => k.text
  | .sign p => p.text
  | .opening => Punct.leftParen.text
  | .closing => Punct.rightParen.text
  | .name s => s
  | .number n => Text.decimal n
  | .string q s => q.wrap s
  | .space => " "

/-- The text that pieces make up. -/
def join (pieces : List Piece) : String :=
  String.join (pieces.map text)

/-- Groups of pieces with a comma and a space between them. -/
def separated (groups : List (List Piece)) : List Piece :=
  [.sign .comma, .space].intercalate groups

/-- Pieces in parentheses. -/
def parenthesized (pieces : List Piece) : List Piece :=
  .opening :: pieces ++ [.closing]

end Piece

/-!
### Operators
-/

/-- The piece that an assignment is written by. -/
def Assignment.piece : Assignment → Piece
  | .assign => .sign .eq
  | .add => .sign .plusEq
  | .sub => .sign .minusEq
  | .mul => .sign .starEq
  | .div => .sign .slashEq
  | .mod => .sign .percentEq

/-- How an assignment is written. -/
def Assignment.symbol (op : Assignment) : String :=
  op.piece.text

/-- The word that a jump is written by. -/
def Jump.piece : Jump → Piece
  | .stop => .keyword .kwBreak
  | .skip => .keyword .kwContinue

/-- How a jump is written. -/
def Jump.symbol (jump : Jump) : String :=
  jump.piece.text

/-- The piece that an operator in front of its operand is written by. -/
def PrefixOp.piece : PrefixOp → Piece
  | .not => .keyword .kwNot
  | .plus => .sign .plus
  | .minus => .sign .minus

/-- How an operator in front of its operand is written. -/
def PrefixOp.symbol (op : PrefixOp) : String :=
  op.piece.text

/-- The word that a connective is written by. -/
def Connective.piece : Connective → Piece
  | .and => .keyword .kwAnd
  | .or => .keyword .kwOr

/-- How a connective is written. -/
def Connective.symbol (op : Connective) : String :=
  op.piece.text

/-- The sign that an arithmetic operator is written by. -/
def Arithmetic.piece : Arithmetic → Piece
  | .add => .sign .plus
  | .sub => .sign .minus
  | .mul => .sign .star
  | .div => .sign .slash
  | .mod => .sign .percent

/-- How an arithmetic operator is written. -/
def Arithmetic.symbol (op : Arithmetic) : String :=
  op.piece.text

/-- The pieces that a comparison is written by; the negated membership is two words. -/
def Comparison.pieces : Comparison → List Piece
  | .eq => [.sign .eqEq]
  | .ne => [.sign .bangEq]
  | .lt => [.sign .less]
  | .le => [.sign .lessEq]
  | .gt => [.sign .greater]
  | .ge => [.sign .greaterEq]
  | .member => [.keyword .kwIn]
  | .notMember => [.keyword .kwNot, .space, .keyword .kwIn]

/-- How a comparison is written. -/
def Comparison.symbol (op : Comparison) : String :=
  Piece.join op.pieces

end BuildScript
