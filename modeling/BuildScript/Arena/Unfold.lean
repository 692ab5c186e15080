/-
Module: BuildScript.Arena.Unfold
Layer: arenas
Purpose: The tree that a node of an arena stands for, its references followed, and through it the two texts
  of a node. A shared node appears once for every reference to it. A reference to nothing becomes a gap
  in the tree.
Main exports: Arena.unfold, Arena.tree, Arena.sexpr?, Arena.spelling
-/
import BuildScript.Arena.Basic
import BuildScript.Tree.Sexpr
import BuildScript.Tree.Spelling

namespace BuildScript.Arena

/-- The trees of a child list; a list that is not there is one gap. -/
def unfoldList (a : Arena) (sub : NodeId → Tree) (r : NodeRange) : List Tree :=
  match a.list? r with
  | some ids => ids.map sub
  | none => [.missing .part]

/-- The tree of a node, given the trees of its parts. -/
def unfoldNode (a : Arena) (sub : NodeId → Tree) : Node → Tree
  | .empty => .empty
  | .sequence statements => .sequence (a.unfoldList sub statements)
  | .assignment op target value => .assignment op (sub target) (sub value)
  | .conditional clauses otherwise => .conditional (a.unfoldList sub clauses) (otherwise.map sub)
  | .clause predicate body => .clause (sub predicate) (sub body)
  | .foreach vars iterable body => .foreach (a.unfoldList sub vars) (sub iterable) (sub body)
  | .jump kind => .jump kind
  | .unary op operand => .unary op (sub operand)
  | .logical op lhs rhs => .logical op (sub lhs) (sub rhs)
  | .ternary condition yes no => .ternary (sub condition) (sub yes) (sub no)
  | .arithmetic op lhs rhs => .arithmetic op (sub lhs) (sub rhs)
  | .relational op lhs rhs => .relational op (sub lhs) (sub rhs)
  | .member object field => .member (sub object) (sub field)
  | .index target position => .index (sub target) (sub position)
  | .application callee args kwargs =>
      .application (sub callee) (a.unfoldList sub args) (a.unfoldList sub kwargs)
  | .keywordArg key value => .keywordArg (sub key) (sub value)
  | .name text =>
      match a.text? text with
      | some word => .name word
      | none => .missing .name
  | .bool value => .bool value
  | .number value => .number value
  | .string text =>
      match a.text? text with
      | some content => .string content
      | none => .missing .content
  | .array items => .array (a.unfoldList sub items)
  | .dictionary entries => .dictionary (a.unfoldList sub entries)
  | .keyValue key value => .keyValue (sub key) (sub value)

/-- The tree of a node, with references followed `depth` deep. -/
def unfold (a : Arena) : (depth : Nat) → NodeId → Tree
  | 0, _ => .missing .part
  | depth + 1, id =>
      match a.node? id with
      | some node => a.unfoldNode (a.unfold depth) node
      | none => .missing .part

/-- The tree of a node. Where no node refers back to one it is part of, no chain of references is longer
    than there are nodes. -/
def tree (a : Arena) (id : NodeId) : Tree :=
  a.unfold a.nodes.size id

/-- The shape of the tree of a node, if nothing of it is missing. -/
def sexpr? (a : Arena) (id : NodeId) : Option String :=
  let t := a.tree id
  if t.isWhole then some t.sexpr else none

/-- The source text of a node. -/
def spelling (a : Arena) (id : NodeId) : Spelling String :=
  (a.tree id).spelling

end BuildScript.Arena
