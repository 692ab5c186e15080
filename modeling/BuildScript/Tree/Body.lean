/-
Module: BuildScript.Tree.Body
Layer: trees
Purpose: The body of a program, a clause or a loop is written as a sequence of statements. A tree
  assembled by hand may have a lone statement for a body; it means the sequence of that one statement.
Main exports: Tree.asBody, Tree.sequenceBodies, Tree.asProgram
-/
import BuildScript.Tree.Basic

namespace BuildScript.Tree

/-- The tree as a body: a lone statement becomes the sequence that holds it. -/
def asBody : Tree → Tree
  | .empty => .empty
  | .sequence statements => .sequence statements
  | statement => .sequence [statement]

mutual
/-- The tree with every body of a clause or a loop in it made a sequence. -/
def sequenceBodies : Tree → Tree
  | .empty => .empty
  | .sequence statements => .sequence (sequenceBodiesAll statements)
  | .assignment op target value => .assignment op target.sequenceBodies value.sequenceBodies
  | .conditional clauses otherwise =>
      .conditional (sequenceBodiesAll clauses) (sequenceElse otherwise)
  | .clause predicate body => .clause predicate.sequenceBodies body.sequenceBodies.asBody
  | .foreach vars iterable body =>
      .foreach (sequenceBodiesAll vars) iterable.sequenceBodies body.sequenceBodies.asBody
  | .jump kind => .jump kind
  | .unary op operand => .unary op operand.sequenceBodies
  | .logical op lhs rhs => .logical op lhs.sequenceBodies rhs.sequenceBodies
  | .ternary condition yes no =>
      .ternary condition.sequenceBodies yes.sequenceBodies no.sequenceBodies
  | .arithmetic op lhs rhs => .arithmetic op lhs.sequenceBodies rhs.sequenceBodies
  | .relational op lhs rhs => .relational op lhs.sequenceBodies rhs.sequenceBodies
  | .member object field => .member object.sequenceBodies field.sequenceBodies
  | .index target position => .index target.sequenceBodies position.sequenceBodies
  | .application callee args kwargs =>
      .application callee.sequenceBodies (sequenceBodiesAll args) (sequenceBodiesAll kwargs)
  | .keywordArg key value => .keywordArg key.sequenceBodies value.sequenceBodies
  | .name text => .name text
  | .bool value => .bool value
  | .number value => .number value
  | .string content => .string content
  | .array items => .array (sequenceBodiesAll items)
  | .dictionary entries => .dictionary (sequenceBodiesAll entries)
  | .keyValue key value => .keyValue key.sequenceBodies value.sequenceBodies
  | .missing gap => .missing gap

/-- The same for each of the trees. -/
def sequenceBodiesAll : List Tree → List Tree
  | [] => []
  | t :: ts => t.sequenceBodies :: sequenceBodiesAll ts

/-- The same for the body of an `else`, which is made a sequence itself. -/
def sequenceElse : Option Tree → Option Tree
  | none => none
  | some body => some body.sequenceBodies.asBody
end

/-- The tree as a whole program: it and every body in it are sequences. -/
def asProgram (t : Tree) : Tree :=
  t.sequenceBodies.asBody

end BuildScript.Tree
