/-
Module: BuildScript.Tree.Spelling
Layer: trees
Purpose: Writing a tree as source text from which the grammar reads the same tree. Parentheses stand only
  where an operand binds looser than its place demands. Some trees have no spelling:
  * a string whose content fits between neither kind of quotes;
  * a name spelt like a reserved word;
  * a negative number, which would be read as a minus sign and a number;
  * an operand that is not there;
  * a statement that would be read as more of the expression in front of it, since statements are
    separated by space alone;
  * a construct in a place where the grammar has none.
  The parts of a tree are written from left to right, and the first obstacle decides.
Main exports: Obstacle, Tree.strength, Tree.bare, Tree.statement, Tree.spelling
-/
import BuildScript.Tree.Body
import BuildScript.Tree.Piece

namespace BuildScript

/-- Why a tree is not written. -/
inductive Obstacle where
  /-- The grammar has no text for it. -/
  | unspellable
  /-- It refers to something that is not there. -/
  | missing
deriving DecidableEq, Repr, Inhabited

/-- Something written, or what stands in its way. -/
abbrev Spelling (α : Type) := Except Obstacle α

namespace Tree

/-- What a tree without a spelling gives. -/
def refused {α : Type} : Spelling α :=
  .error .unspellable

/-- What a tree with a gap gives. -/
def gap {α : Type} : Spelling α :=
  .error .missing

/-!
### Binding strength
-/

/-- How tightly a tree holds its operands together; a tighter one may be an operand of a looser one
    without parentheses. -/
def strength : Tree → Nat
  | .assignment .. => 1
  | .ternary .. => 2
  | .logical .or _ _ => 3
  | .logical .and _ _ => 4
  | .relational op _ _ => if op.isEquality then 5 else 6
  | .arithmetic op _ _ => if op.isMultiplicative then 8 else 7
  | .unary .. => 9
  | .empty | .sequence .. | .conditional .. | .clause .. | .foreach .. | .jump .. | .member ..
  | .index .. | .application .. | .keywordArg .. | .name .. | .bool .. | .number .. | .string ..
  | .array .. | .dictionary .. | .keyValue .. | .missing .. => 10

/-- The pieces of `t` for a place that demands at least `least` of its binding strength. -/
def enclosed (least : Nat) (t : Tree) (pieces : List Piece) : List Piece :=
  if t.strength < least then Piece.parenthesized pieces else pieces

/-- Pieces with a space on either side. -/
def between (pieces : List Piece) : List Piece :=
  .space :: pieces ++ [.space]

/-- Pieces in the brackets that belong to a construct. -/
def bracketed (left right : Punct) (pieces : List Piece) : List Piece :=
  .sign left :: pieces ++ [.sign right]

/-!
### Words and literals
-/

/-- A word as a name. -/
def word (text : String) : Spelling Piece :=
  if isReserved text then refused else .ok (.name text)

/-- The tree where only a name may stand. -/
def plainName : Tree → Spelling Piece
  | .name text => word text
  | .missing .part | .missing .name => gap
  | _ => refused

/-- A string with its quotes. -/
def quoted (content : String) : Spelling Piece :=
  match Quoting.forContent? content with
  | some quoting => .ok (.string quoting content)
  | none => refused

/-- A number. A minus sign would be read as an operator. -/
def numeral (value : Int64) : Spelling Piece :=
  if value < 0 then refused else .ok (.number value)

/-- Whether the tree may have a member, an index or arguments put behind it: it is a name, or a name
    with such things behind it. -/
def checkChain : Tree → Spelling Unit
  | .name .. | .member .. | .index .. | .application .. => .ok ()
  | .missing .part | .missing .name => gap
  | _ => refused

/-!
### Expressions
-/

mutual
/-- The pieces of an expression, without parentheses around it. -/
def bare : Tree → Spelling (List Piece)
  | .assignment op target value => do
      let target ← target.plainName
      let value ← value.bare
      return target :: .space :: op.piece :: .space :: value
  | .unary op operand => do
      let pieces ← operand.bare
      let space := if op = .not then [.space] else []
      return op.piece :: space ++ enclosed 10 operand pieces
  | .logical op lhs rhs => do
      let strength := strength (.logical op lhs rhs)
      let left ← lhs.bare
      let right ← rhs.bare
      return enclosed strength lhs left ++ between [op.piece] ++ enclosed (strength + 1) rhs right
  | .ternary condition yes no => do
      let pieces ← condition.bare
      let yes ← yes.bare
      let no ← no.bare
      return enclosed 3 condition pieces ++ between [.sign .question] ++ yes ++
        between [.sign .colon] ++ no
  | .arithmetic op lhs rhs => do
      let strength := strength (.arithmetic op lhs rhs)
      let left ← lhs.bare
      let right ← rhs.bare
      return enclosed strength lhs left ++ between [op.piece] ++ enclosed (strength + 1) rhs right
  | .relational op lhs rhs => do
      let strength := strength (.relational op lhs rhs)
      let left ← lhs.bare
      let right ← rhs.bare
      return enclosed (strength + 1) lhs left ++ between op.pieces ++
        enclosed (strength + 1) rhs right
  | .member object field => do
      object.checkChain
      let object ← object.bare
      let field ← field.plainName
      return object ++ [.sign .dot, field]
  | .index target position => do
      target.checkChain
      let target ← target.bare
      let position ← position.bare
      return target ++ bracketed .leftBracket .rightBracket position
  | .application callee args kwargs => do
      callee.checkChain
      let callee ← callee.bare
      let args ← bares args
      let kwargs ← keywordArgs kwargs
      return callee ++ bracketed .leftParen .rightParen (Piece.separated (args ++ kwargs))
  | .name text => return [← word text]
  | .bool value => return [.keyword (if value then .kwTrue else .kwFalse)]
  | .number value => return [← numeral value]
  | .string content => return [← quoted content]
  | .array items => do
      let items ← bares items
      return bracketed .leftBracket .rightBracket (Piece.separated items)
  | .dictionary entries => do
      let entries ← dictionaryEntries entries
      return bracketed .leftBrace .rightBrace (Piece.separated entries)
  | .empty | .sequence .. | .conditional .. | .clause .. | .foreach .. | .jump .. | .keywordArg ..
  | .keyValue .. => refused
  | .missing _ => gap

/-- The pieces of each of the expressions. -/
def bares : List Tree → Spelling (List (List Piece))
  | [] => return []
  | t :: ts => do
      let first ← t.bare
      let others ← bares ts
      return first :: others

/-- The pieces of each of the entries of a dictionary. -/
def dictionaryEntries : List Tree → Spelling (List (List Piece))
  | [] => return []
  | .keyValue key value :: rest => do
      let key ← key.bare
      let value ← value.bare
      let others ← dictionaryEntries rest
      return (key ++ [.sign .colon, .space] ++ value) :: others
  | .missing .part :: _ => gap
  | _ :: _ => refused

/-- The pieces of each of the keyword arguments of a call. -/
def keywordArgs : List Tree → Spelling (List (List Piece))
  | [] => return []
  | .keywordArg key value :: rest => do
      let key ← key.plainName
      let value ← value.bare
      let others ← keywordArgs rest
      return (key :: .sign .colon :: .space :: value) :: others
  | .missing .part :: _ => gap
  | _ :: _ => refused
end

/-!
### Statements
-/

/-- What a text can begin with that would carry on an expression in front of it. -/
def continuations : List String :=
  ["(", "[", "+", "-", "not "]

/-- Whether a text behind an expression would be read as more of it. -/
def isContinuation (text : String) : Bool :=
  continuations.any fun opening => text.startsWith opening

/-- Whether the statement ends in an expression. -/
def endsInExpression : Tree → Bool
  | .conditional .. | .foreach .. | .jump .. => false
  | _ => true

/-- A line of a program. -/
structure Line where
  /-- How many bodies the line is inside. -/
  depth : Nat
  /-- What stands on the line, without its indentation. -/
  pieces : List Piece
deriving DecidableEq, Repr, Inhabited

/-- The text of the line, without its indentation. -/
def Line.text (line : Line) : String :=
  Piece.join line.pieces

/-- Whether lines behind an expression would be read as more of it. -/
def areContinuation : List Line → Bool
  | [] => false
  | first :: _ => isContinuation first.text

mutual
/-- The lines of a statement `depth` bodies deep. -/
def statement (depth : Nat) : Tree → Spelling (List Line)
  | .conditional clauses otherwise => do
      if clauses.isEmpty then refused
      let clauses ← clauseLines depth .kwIf clauses
      let otherwise ← elseLines depth otherwise
      return clauses ++ otherwise ++ [⟨depth, [.keyword .kwEndif]⟩]
  | .foreach vars iterable body => do
      let vars ← vars.mapM plainName
      let iterable ← iterable.bare
      let body ← body.body (depth + 1) true
      let head := .keyword .kwForeach :: .space :: Piece.separated (vars.map ([·])) ++
        between [.sign .colon] ++ iterable
      return ⟨depth, head⟩ :: body ++ [⟨depth, [.keyword .kwEndforeach]⟩]
  | .jump kind => return [⟨depth, [kind.piece]⟩]
  | .empty | .sequence .. | .clause .. | .keywordArg .. | .keyValue .. => refused
  | expression => do
      let pieces ← expression.bare
      return [⟨depth, pieces⟩]

/-- The lines of a body. `afterExpression` tells whether an expression stands directly in front of it. -/
def body (depth : Nat) (afterExpression : Bool) : Tree → Spelling (List Line)
  | .empty => return []
  | .sequence statements => statementLines depth afterExpression statements
  | _ => refused

/-- The lines of statements one after the other. -/
def statementLines (depth : Nat) (afterExpression : Bool) : List Tree → Spelling (List Line)
  | [] => return []
  | t :: ts => do
      let lines ← t.statement depth
      if afterExpression && areContinuation lines then refused
      let others ← statementLines depth t.endsInExpression ts
      return lines ++ others

/-- The lines of the clauses of a conditional; `word` opens the first of them. -/
def clauseLines (depth : Nat) (word : Keyword) : List Tree → Spelling (List Line)
  | [] => return []
  | .clause predicate body :: rest => do
      let predicate ← predicate.bare
      let body ← body.body (depth + 1) true
      let rest ← clauseLines depth .kwElif rest
      return ⟨depth, .keyword word :: .space :: predicate⟩ :: body ++ rest
  | .missing .part :: _ => gap
  | _ :: _ => refused

/-- The lines of the part of a conditional that applies when no clause does. -/
def elseLines (depth : Nat) : Option Tree → Spelling (List Line)
  | none => return []
  | some body => do
      let body ← body.body (depth + 1) false
      return ⟨depth, [.keyword .kwElse]⟩ :: body
end

/-!
### Programs
-/

/-- Two spaces for every body that a line is inside. -/
def indentation (depth : Nat) : String :=
  String.join (List.replicate depth "  ")

/-- The text so far and one more line. A line feed parts it from what is written already. -/
def withLine (written : String) (line : Line) : String :=
  written ++ (if written.isEmpty then "" else "\n") ++ indentation line.depth ++ line.text

/-- The text of the lines. -/
def written (lines : List Line) : String :=
  lines.foldl withLine ""

/-- The tree as the text of a whole program. -/
def spelling (t : Tree) : Spelling String := do
  let lines ← t.asProgram.body 0 false
  return written lines

end Tree

end BuildScript
