/-
Module: BuildScript.Grammar.Expression
Layer: grammar
Purpose: Expressions, one production a level of binding strength, loosest first:

    assignment      = += -= *= /= %=        once, to a name
    conditional     ? :                     once
    or, and                                 any number, grouping to the left
    equality        == !=                   once
    relational      < <= > >= in not-in     once
    additive        + -                     any number, grouping to the left
    multiplicative  * / %                   any number, grouping to the left
    unary           not + -                 one
    chain           . () []                 any number, behind a name only
    primary         names, literals, parentheses

  A production of a level with operators may find an operator and nothing on its left; the operand is
  then empty. Every production below takes `expr`, the production for the expressions inside it, and
  loops take `bound`, which is never less than the number of terminals left, so that the loop ends
  because its input does.
Main exports: expression, and the production of each level
-/
import BuildScript.Grammar.Parser

namespace BuildScript.Grammar

open BuildScript.Parser

/-!
### Operators
-/

/-- The assignment that a terminal stands for. -/
def assignOp? : Terminal → Option Assignment
  | .punct .eq => some .assign
  | .punct .plusEq => some .add
  | .punct .minusEq => some .sub
  | .punct .starEq => some .mul
  | .punct .slashEq => some .div
  | .punct .percentEq => some .mod
  | _ => none

/-- The equality that a terminal stands for. -/
def equalityOp? : Terminal → Option Comparison
  | .punct .eqEq => some .eq
  | .punct .bangEq => some .ne
  | _ => none

/-- The comparison that a terminal stands for or begins. -/
def relationalOp? : Terminal → Option Comparison
  | .punct .less => some .lt
  | .punct .lessEq => some .le
  | .punct .greater => some .gt
  | .punct .greaterEq => some .ge
  | .keyword .kwIn => some .member
  | .keyword .kwNot => some .notMember
  | _ => none

/-- The sum or difference that a terminal stands for. -/
def additiveOp? : Terminal → Option Arithmetic
  | .punct .plus => some .add
  | .punct .minus => some .sub
  | _ => none

/-- The product, quotient or remainder that a terminal stands for. -/
def multiplicativeOp? : Terminal → Option Arithmetic
  | .punct .star => some .mul
  | .punct .slash => some .div
  | .punct .percent => some .mod
  | _ => none

/-- The operator in front of an operand that a terminal stands for. -/
def unaryOp? : Terminal → Option PrefixOp
  | .keyword .kwNot => some .not
  | .punct .plus => some .plus
  | .punct .minus => some .minus
  | _ => none

/-- The logical operator that a terminal stands for, if it is `op`. -/
def logicalOp? (op : Connective) : Terminal → Option Connective
  | .keyword .kwAnd => if op = .and then some op else none
  | .keyword .kwOr => if op = .or then some op else none
  | _ => none

/-!
### Lists in brackets
-/

/-- Whether another element follows one that has been read: a comma does, and not directly in front of
    the closing bracket. -/
def continues (close : Punct) : Parser Bool := do
  if ← accept (.punct .comma) then
    return (← peek) != some (.punct close)
  else return false

/-- One or more elements with commas between them. -/
def elements (close : Punct) (element : Parser Tree) : (bound : Nat) → Parser (List Tree)
  | 0 => return [← element]
  | bound + 1 => do
      let first ← element
      if ← continues close then
        let others ← elements close element bound
        return first :: others
      else return [first]

/-- Any number of elements up to the closing bracket, `all` being the production for one or more. The
    opening bracket has been read. -/
def bracketed {α : Type} (close : Punct) (unclosed : SyntaxError) (all : Parser (List α)) :
    Parser (List α) := do
  if ← accept (.punct close) then return []
  let found ← all
  expect (.punct close) unclosed
  return found

/-!
### Primaries
-/

/-- The text of a name. -/
def name? : Terminal → Option String
  | .name text => some text
  | _ => none

/-- A name. -/
def name : Production := do
  match ← take? name? with
  | some text => return some (← build (.name text))
  | none => return none

/-- One entry of a dictionary. -/
def entry (expr : Production) : Parser Tree := do
  let key ← require expr .dictionaryKey
  expect (.punct .colon) .dictionaryColon
  let value ← require expr .dictionaryValue
  build (.keyValue key value)

/-- A literal of one terminal, read as `t`. -/
def literal (t : Tree) : Production := do
  skip
  return some (← build t)

/-- A number, if it has a value. -/
def number : Option Int64 → Production
  | some value => literal (.number value)
  | none => reject .numberRange

/-- A parenthesised expression, a name, a literal, an array or a dictionary. -/
def primary (bound : Nat) (expr : Production) : Production := do
  match ← peek with
  | some (.punct .leftParen) =>
      skip
      let inner ← require expr .parenthesized
      expect (.punct .rightParen) .closingParen
      return some inner
  | some (.punct .leftBracket) =>
      skip
      let items ← bracketed .rightBracket .arrayClose
        (elements .rightBracket (require expr .arrayItem) bound)
      return some (← build (.array items))
  | some (.punct .leftBrace) =>
      skip
      let entries ← bracketed .rightBrace .dictionaryClose
        (elements .rightBrace (entry expr) bound)
      return some (← build (.dictionary entries))
  | some (.keyword .kwTrue) => literal (.bool true)
  | some (.keyword .kwFalse) => literal (.bool false)
  | some (.number value?) => number value?
  | some (.string content) => literal (.string content)
  | _ => name

/-!
### Chains
-/

/-- The field behind a dot: any primary that is a name. -/
def field (bound : Nat) (expr : Production) : Parser Tree := do
  let field ← require (primary bound expr) .fieldMissing
  if field.isName then return field else reject .fieldName

/-- An argument of a call, kept as a `ν`. -/
inductive Argument (ν : Type) where
  | positional (value : ν)
  | keyword (arg : ν)
deriving Inhabited

namespace Argument

variable {ν : Type}

/-- Whether the argument is a keyword argument. -/
def isKeyword : Argument ν → Bool
  | .positional _ => false
  | .keyword _ => true

/-- What a positional argument is kept as. -/
def positional? : Argument ν → Option ν
  | .positional value => some value
  | .keyword _ => none

/-- What a keyword argument is kept as. -/
def keyword? : Argument ν → Option ν
  | .positional _ => none
  | .keyword arg => some arg

end Argument

/-- One argument. A name in front of a colon makes it a keyword argument; with `keywordsOnly` it has to
    be one. -/
def argument (expr : Production) (keywordsOnly : Bool) : Parser (Argument Tree) := do
  let arg ← require expr .argument
  if ← accept (.punct .colon) then
    unless arg.isName do reject .keywordName
    let value ← require expr .keywordValue
    return .keyword (← build (.keywordArg arg value))
  else if keywordsOnly then reject .keywordMissing
  else return .positional arg

/-- One or more arguments with commas between them. Behind a keyword argument only such may come. -/
def arguments (expr : Production) : (bound : Nat) → (keywordsOnly : Bool) → Parser (List (Argument Tree))
  | 0, keywordsOnly => return [← argument expr keywordsOnly]
  | bound + 1, keywordsOnly => do
      let first ← argument expr keywordsOnly
      if ← continues .rightParen then
        let others ← arguments expr bound first.isKeyword
        return first :: others
      else return [first]

/-- A call of `callee`. The opening parenthesis has been read. -/
def application (bound : Nat) (expr : Production) (callee : Tree) : Parser Tree := do
  let all ← bracketed .rightParen .argumentsClose (arguments expr bound false)
  build (.application callee (all.filterMap Argument.positional?) (all.filterMap Argument.keyword?))

/-- An element of `target`. The opening bracket has been read. -/
def subscript (expr : Production) (target : Tree) : Parser Tree := do
  let position ← require expr .subscriptIndex
  expect (.punct .rightBracket) .subscriptClose
  build (.index target position)

/-- What begins another link of a chain. -/
inductive Link where
  | member
  | call
  | index
deriving DecidableEq, Repr, Inhabited

/-- The link that a terminal begins. -/
def link? : Terminal → Option Link
  | .punct .dot => some .member
  | .punct .leftParen => some .call
  | .punct .leftBracket => some .index
  | _ => none

/-- Members, calls and subscripts behind `object`, as many as there are. -/
def links (expr : Production) : (bound : Nat) → (object : Tree) → Parser Tree
  | 0, object => return object
  | bound + 1, object => do
      match ← take? link? with
      | none => return object
      | some .member =>
          let field ← field bound expr
          let longer ← build (.member object field)
          links expr bound longer
      | some .call =>
          let longer ← application bound expr object
          links expr bound longer
      | some .index =>
          let longer ← subscript expr object
          links expr bound longer

/-- A primary and, if that is a name, what is chained to it. -/
def chain (bound : Nat) (expr : Production) : Production := do
  match ← primary bound expr with
  | none => return none
  | some first => if first.isName then return some (← links expr bound first) else return some first

/-!
### Operators in front of and between operands
-/

/-- At most one operator in front of a chain. -/
def unary (bound : Nat) (expr : Production) : Production := do
  match ← take? unaryOp? with
  | none => chain bound expr
  | some op =>
      let operand ← require (chain bound expr) .unaryOperand
      return some (← build (.unary op operand))

/-- Further operators of a level with operands between them, grouping to the left. -/
def moreOperands {ω : Type} (op? : Terminal → Option ω) (node : ω → Tree → Tree → Tree)
    (operand : Production) (unfinished : SyntaxError) :
    (bound : Nat) → (lhs : Option Tree) → Production
  | 0, lhs => return lhs
  | bound + 1, lhs => do
      match ← take? op? with
      | none => return lhs
      | some op =>
          let left ← leftOperand lhs
          let right ← require operand unfinished
          let whole ← build (node op left right)
          moreOperands op? node operand unfinished bound (some whole)

/-- A level whose operators group to the left. -/
def leftLevel {ω : Type} (op? : Terminal → Option ω) (node : ω → Tree → Tree → Tree)
    (operand : Production) (unfinished : SyntaxError) (bound : Nat) : Production := do
  let first ← operand
  moreOperands op? node operand unfinished bound first

/-- Products, quotients and remainders. -/
def multiplicative (bound : Nat) (expr : Production) : Production :=
  leftLevel multiplicativeOp? .arithmetic (unary bound expr) .multiplicativeOperand bound

/-- Sums and differences. -/
def additive (bound : Nat) (expr : Production) : Production :=
  leftLevel additiveOp? .arithmetic (multiplicative bound expr) .additiveOperand bound

/-- One comparison of order or membership. `not` must go on with `in`. -/
def relational (bound : Nat) (expr : Production) : Production := do
  let lhs ← additive bound expr
  match ← take? relationalOp? with
  | none => return lhs
  | some op =>
      if op = .notMember then expect (.keyword .kwIn) .inAfterNot
      let left ← leftOperand lhs
      let right ← require (additive bound expr) .relationalOperand
      return some (← build (.relational op left right))

/-- One comparison for equality. -/
def equality (bound : Nat) (expr : Production) : Production := do
  let lhs ← relational bound expr
  match ← take? equalityOp? with
  | none => return lhs
  | some op =>
      let left ← leftOperand lhs
      let right ← require (relational bound expr) .equalityOperand
      return some (← build (.relational op left right))

/-- Conjunctions. -/
def conjunction (bound : Nat) (expr : Production) : Production :=
  leftLevel (logicalOp? .and) .logical (equality bound expr) .andOperand bound

/-- Disjunctions. -/
def disjunction (bound : Nat) (expr : Production) : Production :=
  leftLevel (logicalOp? .or) .logical (conjunction bound expr) .orOperand bound

/-- A disjunction, or a choice between two expressions by one. -/
def conditional (bound : Nat) (expr : Production) : Production := do
  let condition ← disjunction bound expr
  if ← accept (.punct .question) then
    let condition ← leftOperand condition
    let yes ← require expr .ternaryThen
    expect (.punct .colon) .ternaryColon
    let no ← require expr .ternaryElse
    return some (← build (.ternary condition yes no))
  else return condition

/-- A conditional, or an assignment, whose target must be a plain name. The target is judged before the
    value is read. -/
def assignment (bound : Nat) (expr : Production) : Production := do
  let lhs ← conditional bound expr
  match ← take? assignOp? with
  | none => return lhs
  | some op =>
      match lhs with
      | some target =>
          unless target.isName do reject .assignmentTarget
          let value ← require expr .assignmentValue
          return some (← build (.assignment op target value))
      | none => reject .assignmentTarget

/-- An expression with expressions nested at most `bound` deep in it. An expression inside another has a
    terminal less to its end, so a bound of the number of terminals left is no restriction; and where
    none are left there is no expression. -/
def expression : (bound : Nat) → Production
  | 0 => return none
  | bound + 1 => assignment (bound + 1) (expression bound)

end BuildScript.Grammar
