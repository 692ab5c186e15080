/-
Module: BuildScript.Arena.Kind
Layer: arenas
Purpose: The kinds that diagnostics and dumps sort nodes into. A ternary counts as a logical node.
Main exports: Node.Kind, Node.Kind.all, Node.Kind.label, Node.kind
-/
import BuildScript.Arena.Basic

namespace BuildScript

/-- Kind of a node. -/
inductive Node.Kind where
  | empty
  | sequence
  | assignment
  | conditional
  | clause
  | foreach
  | jump
  | unary
  | logical
  | arithmetic
  | relational
  | member
  | index
  | application
  | keywordArg
  | name
  | bool
  | number
  | string
  | array
  | dictionary
  | keyValue
deriving DecidableEq, Repr, Inhabited

namespace Node.Kind

/-- Every kind. -/
def all : List Node.Kind :=
  [.empty, .sequence, .assignment, .conditional, .clause, .foreach, .jump, .unary, .logical,
    .arithmetic, .relational, .member, .index, .application, .keywordArg, .name, .bool, .number,
    .string, .array, .dictionary, .keyValue]

/-- How diagnostics call the kind. -/
def label : Node.Kind → String
  | .empty => "EMPTY"
  | .sequence => "SEQUENCE"
  | .assignment => "ASSIGNMENT"
  | .conditional => "IF"
  | .clause => "IF_CLAUSE"
  | .foreach => "FOREACH"
  | .jump => "JUMP"
  | .unary => "UNARY"
  | .logical => "LOGICAL"
  | .arithmetic => "ARITHMETIC"
  | .relational => "RELATIONAL"
  | .member => "MEMBER"
  | .index => "INDEX"
  | .application => "APPLICATION"
  | .keywordArg => "KEYWORD_ARG"
  | .name => "ID"
  | .bool => "BOOLEAN"
  | .number => "NUMBER"
  | .string => "STRING"
  | .array => "ARRAY"
  | .dictionary => "DICTIONARY"
  | .keyValue => "KV"

end Node.Kind

/-- Kind of the node. -/
def Node.kind : Node → Node.Kind
  | .empty => .empty
  | .sequence _ => .sequence
  | .assignment .. => .assignment
  | .conditional .. => .conditional
  | .clause .. => .clause
  | .foreach .. => .foreach
  | .jump _ => .jump
  | .unary .. => .unary
  | .logical .. => .logical
  | .ternary .. => .logical
  | .arithmetic .. => .arithmetic
  | .relational .. => .relational
  | .member .. => .member
  | .index .. => .index
  | .application .. => .application
  | .keywordArg .. => .keywordArg
  | .name _ => .name
  | .bool _ => .bool
  | .number _ => .number
  | .string _ => .string
  | .array _ => .array
  | .dictionary _ => .dictionary
  | .keyValue .. => .keyValue

end BuildScript
