/-
Module: BuildScript.Arena.Dump
Layer: arenas
Purpose: Nodes, references and arenas written out in full, for inspection: the construct by name, then its
  fields, a reference by what it refers to and its number.
Main exports: NodeId.dump, NodeRange.dump, TextId.dump, Node.dump, Arena.dump
-/
import BuildScript.Arena.Basic
import BuildScript.Text.Decimal

namespace BuildScript

/-!
### Names of operators
-/

/-- Name of the operator in a dump. -/
def Assignment.dump : Assignment → String
  | .assign => "Assign"
  | .add => "AddAssign"
  | .sub => "SubAssign"
  | .mul => "MulAssign"
  | .div => "DivAssign"
  | .mod => "ModAssign"

/-- Name of the statement in a dump. -/
def Jump.dump : Jump → String
  | .stop => "Break"
  | .skip => "Continue"

/-- Name of the operator in a dump. -/
def PrefixOp.dump : PrefixOp → String
  | .not => "Not"
  | .plus => "Plus"
  | .minus => "Minus"

/-- Name of the operator in a dump. -/
def Connective.dump : Connective → String
  | .and => "And"
  | .or => "Or"

/-- Name of the operator in a dump. -/
def Arithmetic.dump : Arithmetic → String
  | .add => "Add"
  | .sub => "Sub"
  | .mul => "Mul"
  | .div => "Div"
  | .mod => "Mod"

/-- Name of the operator in a dump. -/
def Comparison.dump : Comparison → String
  | .eq => "Eq"
  | .ne => "Ne"
  | .lt => "Lt"
  | .le => "Le"
  | .gt => "Gt"
  | .ge => "Ge"
  | .member => "In"
  | .notMember => "NotIn"

/-!
### References
-/

/-- A value behind the word for what it is. -/
def tagged (tag value : String) : String :=
  tag ++ "(" ++ value ++ ")"

/-- A construct with named fields. -/
def record (construct : String) (fields : List (String × String)) : String :=
  construct ++ " \x7b " ++ ", ".intercalate (fields.map fun (key, value) => key ++ ": " ++ value) ++
    " \x7d"

/-- The reference in a dump. -/
def NodeId.dump (id : NodeId) : String :=
  tagged "NodeId" id.index.repr

/-- The reference in a dump. -/
def TextId.dump (id : TextId) : String :=
  tagged "TextId" id.index.repr

/-- The reference in a dump: where the list begins and where it ends. -/
def NodeRange.dump (r : NodeRange) : String :=
  tagged "NodeRange" (r.start.repr ++ ".." ++ r.stop.repr)

/-- Something that may be absent, in a dump. -/
def dumpOption {α : Type} (dump : α → String) : Option α → String
  | none => "None"
  | some value => tagged "Some" (dump value)

/-!
### Nodes and arenas
-/

/-- The node in a dump. -/
def Node.dump : Node → String
  | .empty => "Empty"
  | .sequence statements => tagged "Sequence" statements.dump
  | .assignment op target value =>
      record "Assignment" [("op", op.dump), ("target", target.dump), ("value", value.dump)]
  | .conditional clauses otherwise =>
      record "If" [("clauses", clauses.dump), ("else_body", dumpOption NodeId.dump otherwise)]
  | .clause predicate body => record "IfClause" [("predicate", predicate.dump), ("body", body.dump)]
  | .foreach vars iterable body =>
      record "Foreach" [("vars", vars.dump), ("iterable", iterable.dump), ("body", body.dump)]
  | .jump kind => tagged "Jump" kind.dump
  | .unary op operand => record "Unary" [("op", op.dump), ("operand", operand.dump)]
  | .logical op lhs rhs => record "Logical" [("op", op.dump), ("lhs", lhs.dump), ("rhs", rhs.dump)]
  | .ternary condition yes no =>
      record "Ternary"
        [("condition", condition.dump), ("then_branch", yes.dump), ("else_branch", no.dump)]
  | .arithmetic op lhs rhs =>
      record "Arithmetic" [("op", op.dump), ("lhs", lhs.dump), ("rhs", rhs.dump)]
  | .relational op lhs rhs =>
      record "Relational" [("op", op.dump), ("lhs", lhs.dump), ("rhs", rhs.dump)]
  | .member object field => record "Member" [("object", object.dump), ("field", field.dump)]
  | .index target position => record "Index" [("target", target.dump), ("index", position.dump)]
  | .application callee args kwargs =>
      record "Application"
        [("callee", callee.dump), ("args", args.dump), ("kwargs", kwargs.dump)]
  | .keywordArg key value => record "KeywordArg" [("name", key.dump), ("value", value.dump)]
  | .name text => tagged "Ident" text.dump
  | .bool value => tagged "Bool" (if value then "true" else "false")
  | .number value => tagged "Number" (Text.decimal value)
  | .string content => tagged "Str" content.dump
  | .array items => tagged "Array" items.dump
  | .dictionary entries => tagged "Dictionary" entries.dump
  | .keyValue key value => record "KeyValue" [("key", key.dump), ("value", value.dump)]

/-- The arena in a dump: how much it holds, and its limit. -/
def Arena.dump (a : Arena) : String :=
  record "NodeArena"
    [("nodes", a.nodes.size.repr), ("lists", a.lists.size.repr), ("texts", a.texts.size.repr),
      ("max_nodes", dumpOption Nat.repr a.maxNodes)]

end BuildScript
