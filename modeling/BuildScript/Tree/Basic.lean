/-
Module: BuildScript.Tree.Basic
Layer: trees
Purpose: Programs as trees. The type admits any construct in any position, because a program assembled by
  hand may hold an ill-placed part; which positions make sense is a matter of the grammar and of the
  spelling.
Main exports: Tree, Gap, Tree.isName, Tree.size
-/
import BuildScript.Tree.Operator

namespace BuildScript

/-- What a program assembled by hand may lack: a part it refers to, or the text of a name or string. -/
inductive Gap where
  | part
  | name
  | content
deriving DecidableEq, Repr, Inhabited

/-- A program or a part of one. -/
inductive Tree where
  /-- No statement or no operand here. -/
  | empty
  /-- Statements in order. -/
  | sequence (statements : List Tree)
  | assignment (op : Assignment) (target value : Tree)
  /-- Clauses with a predicate each, and the body for when none of them holds. -/
  | conditional (clauses : List Tree) (otherwise : Option Tree)
  /-- One clause of a conditional. -/
  | clause (predicate body : Tree)
  | foreach (vars : List Tree) (iterable body : Tree)
  | jump (kind : Jump)
  | unary (op : PrefixOp) (operand : Tree)
  | logical (op : Connective) (lhs rhs : Tree)
  | ternary (condition thenBranch elseBranch : Tree)
  | arithmetic (op : Arithmetic) (lhs rhs : Tree)
  | relational (op : Comparison) (lhs rhs : Tree)
  | member (object field : Tree)
  | index (target position : Tree)
  /-- A call: positional arguments, then keyword arguments. -/
  | application (callee : Tree) (args kwargs : List Tree)
  /-- One keyword argument of a call. -/
  | keywordArg (key value : Tree)
  | name (text : String)
  | bool (value : Bool)
  | number (value : Int64)
  | string (content : String)
  | array (items : List Tree)
  /-- Entries are key-value pairs. -/
  | dictionary (entries : List Tree)
  /-- One entry of a dictionary. -/
  | keyValue (key value : Tree)
  /-- Something that a program assembled by hand refers to and does not hold. -/
  | missing (gap : Gap)
deriving Inhabited

namespace Tree

/-- Whether the tree is a plain name. -/
def isName : Tree → Bool
  | .name _ => true
  | _ => false

/-!
### Counting
-/

mutual
/-- How many constructs the tree has. -/
def size : Tree → Nat
  | .empty | .jump _ | .name _ | .bool _ | .number _ | .string _ | .missing _ => 1
  | .sequence parts | .array parts | .dictionary parts => sizes parts + 1
  | .conditional clauses otherwise => sizes clauses + sizeOption otherwise + 1
  | .foreach vars iterable body => sizes vars + iterable.size + body.size + 1
  | .application callee args kwargs => callee.size + sizes args + sizes kwargs + 1
  | .unary _ operand => operand.size + 1
  | .ternary condition yes no => condition.size + yes.size + no.size + 1
  | .assignment _ a b | .logical _ a b | .arithmetic _ a b | .relational _ a b => a.size + b.size + 1
  | .clause a b | .member a b | .index a b | .keywordArg a b | .keyValue a b => a.size + b.size + 1

/-- How many constructs the trees have together. -/
def sizes : List Tree → Nat
  | [] => 0
  | t :: ts => t.size + sizes ts

/-- How many constructs the tree has, if there is one. -/
def sizeOption : Option Tree → Nat
  | none => 0
  | some t => t.size
end

end Tree

end BuildScript
