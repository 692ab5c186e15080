/-
Module: BuildScript.Tree.Sexpr
Layer: trees
Purpose: The shape of a tree as a parenthesised expression, for looking at it and for comparing programs.
  `foreach x : xs break endforeach` is shown as
  `(seq (foreach ids:((id x)) (id xs) (seq (break))))`.
Main exports: Tree.sexpr, Tree.isWhole
-/
import BuildScript.Tree.Basic
import BuildScript.Tree.Piece

namespace BuildScript.Tree

/-- Texts with a space in front of each. -/
def spaced (texts : List String) : String :=
  String.join (texts.map fun text => " " ++ text)

/-- A labelled group of texts, left out altogether when there are none. -/
def labelled (label : String) (texts : List String) : String :=
  if texts.isEmpty then "" else " " ++ label ++ ":(" ++ " ".intercalate texts ++ ")"

/-- The word of a unary operator. -/
def unaryWord : PrefixOp → String
  | .not => "not"
  | .plus => "plus"
  | .minus => "minus"

/-- The word of a comparison: its symbol, but a single word for the negated membership. -/
def relWord : Comparison → String
  | .notMember => "notin"
  | op => op.symbol

mutual
/-- The tree in parentheses. -/
def sexpr : Tree → String
  | .empty => "(empty)"
  | .sequence statements => "(seq" ++ spaced (sexprs statements) ++ ")"
  | .assignment op target value => "(assign" ++ op.stem ++ spaced [target.sexpr, value.sexpr] ++ ")"
  | .conditional clauses otherwise =>
      "(cond" ++ spaced (sexprs clauses) ++ sexprElse otherwise ++ ")"
  | .clause predicate body => "(" ++ predicate.sexpr ++ " " ++ body.sexpr ++ ")"
  | .foreach vars iterable body =>
      "(foreach" ++ labelled "ids" (sexprs vars) ++ spaced [iterable.sexpr, body.sexpr] ++ ")"
  | .jump kind => "(" ++ kind.symbol ++ ")"
  | .unary op operand => "(unary " ++ unaryWord op ++ spaced [operand.sexpr] ++ ")"
  | .logical op lhs rhs => "(" ++ op.symbol ++ spaced [lhs.sexpr, rhs.sexpr] ++ ")"
  | .ternary condition yes no =>
      "(ternary" ++ spaced [condition.sexpr, yes.sexpr, no.sexpr] ++ ")"
  | .arithmetic op lhs rhs => "(" ++ op.symbol ++ spaced [lhs.sexpr, rhs.sexpr] ++ ")"
  | .relational op lhs rhs => "(" ++ relWord op ++ spaced [lhs.sexpr, rhs.sexpr] ++ ")"
  | .member object field => "(member" ++ spaced [object.sexpr, field.sexpr] ++ ")"
  | .index target position => "(index" ++ spaced [target.sexpr, position.sexpr] ++ ")"
  | .application callee args kwargs =>
      "(app" ++ spaced [callee.sexpr] ++ labelled "args" (sexprs args) ++
        labelled "kw-args" (sexprs kwargs) ++ ")"
  | .keywordArg key value => "(" ++ key.sexpr ++ " " ++ value.sexpr ++ ")"
  | .name text => "(id " ++ text ++ ")"
  | .bool value => if value then "(bool true)" else "(bool false)"
  | .number value => "(num " ++ Text.decimal value ++ ")"
  | .string content => "(str `" ++ content ++ "`)"
  | .array items => "(array" ++ spaced (sexprs items) ++ ")"
  | .dictionary entries => "(dict" ++ spaced (sexprs entries) ++ ")"
  | .keyValue key value => "(" ++ key.sexpr ++ " " ++ value.sexpr ++ ")"
  | .missing _ => "()"

/-- Each of the trees in parentheses. -/
def sexprs : List Tree → List String
  | [] => []
  | t :: ts => t.sexpr :: sexprs ts

/-- The part of a conditional that applies when no clause does. -/
def sexprElse : Option Tree → String
  | none => ""
  | some body => " (else " ++ body.sexpr ++ ")"
end

/-!
### Gaps
-/

mutual
/-- Whether nothing is missing in the tree. -/
def isWhole : Tree → Bool
  | .missing _ => false
  | .empty | .jump _ | .name _ | .bool _ | .number _ | .string _ => true
  | .sequence parts | .array parts | .dictionary parts => areWhole parts
  | .conditional clauses otherwise => areWhole clauses && isWholeOption otherwise
  | .foreach vars iterable body => areWhole vars && iterable.isWhole && body.isWhole
  | .application callee args kwargs => callee.isWhole && areWhole args && areWhole kwargs
  | .unary _ operand => operand.isWhole
  | .ternary condition yes no => condition.isWhole && yes.isWhole && no.isWhole
  | .assignment _ a b | .logical _ a b | .arithmetic _ a b | .relational _ a b =>
      a.isWhole && b.isWhole
  | .clause a b | .member a b | .index a b | .keywordArg a b | .keyValue a b =>
      a.isWhole && b.isWhole

/-- Whether nothing is missing in any of the trees. -/
def areWhole : List Tree → Bool
  | [] => true
  | t :: ts => t.isWhole && areWhole ts

/-- Whether nothing is missing in the tree, if there is one. -/
def isWholeOption : Option Tree → Bool
  | none => true
  | some t => t.isWhole
end

end BuildScript.Tree
