/-
Module: BuildScript.Arena.Layout
Layer: arenas
Purpose: Putting a tree into an arena. Parts come before the construct they belong to, from left to right,
  so the root is the last node and no number is used out of order. A child list is stored when its
  owner is, and the text of a name or string directly before its node. Reading a program puts its
  constructs into an arena in the same order, each as soon as it is complete.
Main exports: Tree.layOut
-/
import BuildScript.Arena.Basic
import BuildScript.Tree.Basic

namespace BuildScript

/-- Steps that add to an arena. -/
abbrev Builder (α : Type) := StateM Arena α

namespace Builder

/-- Adds a node. -/
def node (n : Node) : Builder NodeId := fun a => a.add n

/-- Adds a child list. -/
def list (ids : List NodeId) : Builder NodeRange := fun a => a.addList ids

/-- Adds a text. -/
def text (t : String) : Builder TextId := fun a => a.addText t

end Builder

namespace Tree

mutual
/-- Adds the tree and gives the number of its root. A gap is filled with an empty node. -/
def layOut : Tree → Builder NodeId
  | .empty => Builder.node .empty
  | .sequence statements => do
      let statements ← Builder.list (← layOutAll statements)
      Builder.node (.sequence statements)
  | .assignment op target value => do
      let target ← target.layOut
      let value ← value.layOut
      Builder.node (.assignment op target value)
  | .conditional clauses otherwise => do
      let clauses ← layOutAll clauses
      let otherwise ← layOutOption otherwise
      let clauses ← Builder.list clauses
      Builder.node (.conditional clauses otherwise)
  | .clause predicate body => do
      let predicate ← predicate.layOut
      let body ← body.layOut
      Builder.node (.clause predicate body)
  | .foreach vars iterable body => do
      let vars ← layOutAll vars
      let iterable ← iterable.layOut
      let body ← body.layOut
      let vars ← Builder.list vars
      Builder.node (.foreach vars iterable body)
  | .jump kind => Builder.node (.jump kind)
  | .unary op operand => do
      let operand ← operand.layOut
      Builder.node (.unary op operand)
  | .logical op lhs rhs => do
      let lhs ← lhs.layOut
      let rhs ← rhs.layOut
      Builder.node (.logical op lhs rhs)
  | .ternary condition yes no => do
      let condition ← condition.layOut
      let yes ← yes.layOut
      let no ← no.layOut
      Builder.node (.ternary condition yes no)
  | .arithmetic op lhs rhs => do
      let lhs ← lhs.layOut
      let rhs ← rhs.layOut
      Builder.node (.arithmetic op lhs rhs)
  | .relational op lhs rhs => do
      let lhs ← lhs.layOut
      let rhs ← rhs.layOut
      Builder.node (.relational op lhs rhs)
  | .member object field => do
      let object ← object.layOut
      let field ← field.layOut
      Builder.node (.member object field)
  | .index target position => do
      let target ← target.layOut
      let position ← position.layOut
      Builder.node (.index target position)
  | .application callee args kwargs => do
      let callee ← callee.layOut
      let args ← layOutAll args
      let kwargs ← layOutAll kwargs
      let args ← Builder.list args
      let kwargs ← Builder.list kwargs
      Builder.node (.application callee args kwargs)
  | .keywordArg key value => do
      let key ← key.layOut
      let value ← value.layOut
      Builder.node (.keywordArg key value)
  | .name word => do
      let word ← Builder.text word
      Builder.node (.name word)
  | .bool value => Builder.node (.bool value)
  | .number value => Builder.node (.number value)
  | .string content => do
      let content ← Builder.text content
      Builder.node (.string content)
  | .array items => do
      let items ← Builder.list (← layOutAll items)
      Builder.node (.array items)
  | .dictionary entries => do
      let entries ← Builder.list (← layOutAll entries)
      Builder.node (.dictionary entries)
  | .keyValue key value => do
      let key ← key.layOut
      let value ← value.layOut
      Builder.node (.keyValue key value)
  | .missing _ => Builder.node .empty

/-- Adds the trees and gives the numbers of their roots. -/
def layOutAll : List Tree → Builder (List NodeId)
  | [] => return []
  | t :: ts => do
      let id ← t.layOut
      let ids ← layOutAll ts
      return id :: ids

/-- Adds the tree, if there is one. -/
def layOutOption : Option Tree → Builder (Option NodeId)
  | none => return none
  | some t => do
      let id ← t.layOut
      return some id
end

end Tree

end BuildScript
