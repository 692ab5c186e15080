/-
Module: BuildScript.Flat.Expression
Layer: grammar
Purpose: The productions for expressions, filling an arena. Level by level they read what the productions for
  trees read, and give the number of the node that they put last.
Main exports: Flat.expression, and the production of each level
-/
import BuildScript.Flat.Step
import BuildScript.Grammar.Expression

namespace BuildScript.Flat

open BuildScript.Parser Grammar

/-!
### Lists in brackets
-/

/-- One or more elements with commas between them. -/
def elements (close : Punct) (element : Step NodeId) : (bound : Nat) → Step (List NodeId)
  | 0 => return [← element]
  | bound + 1 => do
      let first ← element
      if ← continues close then
        let others ← elements close element bound
        return first :: others
      else return [first]

/-- Any number of elements up to the closing bracket, `all` being the production for one or more. The
    opening bracket has been read. -/
def bracketed {α : Type} (close : Punct) (unclosed : SyntaxError) (all : Step (List α)) :
    Step (List α) := do
  if ← accept (.punct close) then return []
  let found ← all
  expect (.punct close) unclosed
  return found

/-!
### Primaries
-/

/-- A name. -/
def name : Production := do
  match ← take? name? with
  | some text =>
      let text ← allocText text
      return some (← alloc (.name text))
  | none => return none

/-- One entry of a dictionary. -/
def entry (expr : Production) : Step NodeId := do
  let key ← require expr .dictionaryKey
  expect (.punct .colon) .dictionaryColon
  let value ← require expr .dictionaryValue
  alloc (.keyValue key value)

/-- A literal of one terminal, kept as `node`. -/
def literal (node : Node) : Production := do
  skip
  return some (← alloc node)

/-- A number, if it has a value. -/
def number : Option Int64 → Production
  | some value => literal (.number value)
  | none => reject .numberRange

/-- A parenthesised expression, a name, a literal, an array or a dictionary. -/
def primary (bound : Nat) (expr : Production) : Production := do
  match ← peek with
  | some (.punct .leftParen) =>
      skip
      let inner ← require expr .parenthesized
      expect (.punct .rightParen) .closingParen
      return some inner
  | some (.punct .leftBracket) =>
      skip
      let items ← bracketed .rightBracket .arrayClose
        (elements .rightBracket (require expr .arrayItem) bound)
      let items ← allocList items
      return some (← alloc (.array items))
  | some (.punct .leftBrace) =>
      skip
      let entries ← bracketed .rightBrace .dictionaryClose
        (elements .rightBrace (entry expr) bound)
      let entries ← allocList entries
      return some (← alloc (.dictionary entries))
  | some (.keyword .kwTrue) => literal (.bool true)
  | some (.keyword .kwFalse) => literal (.bool false)
  | some (.number value?) => number value?
  | some (.string content) =>
      let content ← allocText content
      literal (.string content)
  | _ => name

/-!
### Chains
-/

/-- The field behind a dot: any primary that is a name. -/
def field (bound : Nat) (expr : Production) : Step NodeId := do
  let field ← require (primary bound expr) .fieldMissing
  if ← isName field then return field else reject .fieldName

/-- One argument. A name in front of a colon makes it a keyword argument; with `keywordsOnly` it has to
    be one. -/
def argument (expr : Production) (keywordsOnly : Bool) : Step (Argument NodeId) := do
  let arg ← require expr .argument
  if ← accept (.punct .colon) then
    unless ← isName arg do reject .keywordName
    let value ← require expr .keywordValue
    return .keyword (← alloc (.keywordArg arg value))
  else if keywordsOnly then reject .keywordMissing
  else return .positional arg

/-- One or more arguments with commas between them. Behind a keyword argument only such may come. -/
def arguments (expr : Production) :
    (bound : Nat) → (keywordsOnly : Bool) → Step (List (Argument NodeId))
  | 0, keywordsOnly => return [← argument expr keywordsOnly]
  | bound + 1, keywordsOnly => do
      let first ← argument expr keywordsOnly
      if ← continues .rightParen then
        let others ← arguments expr bound first.isKeyword
        return first :: others
      else return [first]

/-- A call of `callee`. The opening parenthesis has been read. The list of positional arguments is stored
    before that of keyword arguments. -/
def application (bound : Nat) (expr : Production) (callee : NodeId) : Step NodeId := do
  let all ← bracketed .rightParen .argumentsClose (arguments expr bound false)
  let args ← allocList (all.filterMap Argument.positional?)
  let kwargs ← allocList (all.filterMap Argument.keyword?)
  alloc (.application callee args kwargs)

/-- An element of `target`. The opening bracket has been read. -/
def subscript (expr : Production) (target : NodeId) : Step NodeId := do
  let position ← require expr .subscriptIndex
  expect (.punct .rightBracket) .subscriptClose
  alloc (.index target position)

/-- Members, calls and subscripts behind `object`, as many as there are. -/
def links (expr : Production) : (bound : Nat) → (object : NodeId) → Step NodeId
  | 0, object => return object
  | bound + 1, object => do
      match ← take? link? with
      | none => return object
      | some .member =>
          let field ← field bound expr
          let longer ← alloc (.member object field)
          links expr bound longer
      | some .call =>
          let longer ← application bound expr object
          links expr bound longer
      | some .index =>
          let longer ← subscript expr object
          links expr bound longer

/-- A primary and, if that is a name, what is chained to it. -/
def chain (bound : Nat) (expr : Production) : Production := do
  match ← primary bound expr with
  | none => return none
  | some first => if ← isName first then return some (← links expr bound first) else return some first

/-!
### Operators in front of and between operands
-/

/-- At most one operator in front of a chain. -/
def unary (bound : Nat) (expr : Production) : Production := do
  match ← take? unaryOp? with
  | none => chain bound expr
  | some op =>
      let operand ← require (chain bound expr) .unaryOperand
      return some (← alloc (.unary op operand))

/-- Further operators of a level with operands between them, grouping to the left. -/
def moreOperands {ω : Type} (op? : Terminal → Option ω) (node : ω → NodeId → NodeId → Node)
    (operand : Production) (unfinished : SyntaxError) :
    (bound : Nat) → (lhs : Option NodeId) → Production
  | 0, lhs => return lhs
  | bound + 1, lhs => do
      match ← take? op? with
      | none => return lhs
      | some op =>
          let left ← leftOperand lhs
          let right ← require operand unfinished
          let whole ← alloc (node op left right)
          moreOperands op? node operand unfinished bound (some whole)

/-- A level whose operators group to the left. -/
def leftLevel {ω : Type} (op? : Terminal → Option ω) (node : ω → NodeId → NodeId → Node)
    (operand : Production) (unfinished : SyntaxError) (bound : Nat) : Production := do
  let first ← operand
  moreOperands op? node operand unfinished bound first

/-- Products, quotients and remainders. -/
def multiplicative (bound : Nat) (expr : Production) : Production :=
  leftLevel multiplicativeOp? .arithmetic (unary bound expr) .multiplicativeOperand bound

/-- Sums and differences. -/
def additive (bound : Nat) (expr : Production) : Production :=
  leftLevel additiveOp? .arithmetic (multiplicative bound expr) .additiveOperand bound

/-- One comparison of order or membership. `not` must go on with `in`. -/
def relational (bound : Nat) (expr : Production) : Production := do
  let lhs ← additive bound expr
  match ← take? relationalOp? with
  | none => return lhs
  | some op =>
      if op = .notMember then expect (.keyword .kwIn) .inAfterNot
      let left ← leftOperand lhs
      let right ← require (additive bound expr) .relationalOperand
      return some (← alloc (.relational op left right))

/-- One comparison for equality. -/
def equality (bound : Nat) (expr : Production) : Production := do
  let lhs ← relational bound expr
  match ← take? equalityOp? with
  | none => return lhs
  | some op =>
      let left ← leftOperand lhs
      let right ← require (relational bound expr) .equalityOperand
      return some (← alloc (.relational op left right))

/-- Conjunctions. -/
def conjunction (bound : Nat) (expr : Production) : Production :=
  leftLevel (logicalOp? .and) .logical (equality bound expr) .andOperand bound

/-- Disjunctions. -/
def disjunction (bound : Nat) (expr : Production) : Production :=
  leftLevel (logicalOp? .or) .logical (conjunction bound expr) .orOperand bound

/-- A disjunction, or a choice between two expressions by one. -/
def conditional (bound : Nat) (expr : Production) : Production := do
  let condition ← disjunction bound expr
  if ← accept (.punct .question) then
    let condition ← leftOperand condition
    let yes ← require expr .ternaryThen
    expect (.punct .colon) .ternaryColon
    let no ← require expr .ternaryElse
    return some (← alloc (.ternary condition yes no))
  else return condition

/-- A conditional, or an assignment, whose target must be a plain name. The target is judged before the
    value is read. -/
def assignment (bound : Nat) (expr : Production) : Production := do
  let lhs ← conditional bound expr
  match ← take? assignOp? with
  | none => return lhs
  | some op =>
      match lhs with
      | some target =>
          unless ← isName target do reject .assignmentTarget
          let value ← require expr .assignmentValue
          return some (← alloc (.assignment op target value))
      | none => reject .assignmentTarget

/-- An expression with expressions nested at most `bound` deep in it. -/
def expression : (bound : Nat) → Production
  | 0 => return none
  | bound + 1 => assignment (bound + 1) (expression bound)

end BuildScript.Flat
