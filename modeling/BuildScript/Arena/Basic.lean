/-
Module: BuildScript.Arena.Basic
Layer: arenas
Purpose: Programs in flat form. All constructs of a program lie in one array and refer to each other by
  number; lists of constructs share a second array, names and string contents a third. Nothing keeps a
  reference from pointing nowhere, so following one may fail.
Main exports: NodeId, NodeRange, TextId, Node, Arena, Arena.node?, Arena.list?, Arena.text?,
  Arena.push?, Arena.addList, Arena.addText, Arena.children?
-/
import BuildScript.Tree.Operator

namespace BuildScript

/-- Number of a node. -/
structure NodeId where
  index : Nat
deriving DecidableEq, Repr, Inhabited

/-- Number of a text. -/
structure TextId where
  index : Nat
deriving DecidableEq, Repr, Inhabited

/-- A stretch of the list storage. -/
structure NodeRange where
  start : Nat
  length : Nat
deriving DecidableEq, Repr, Inhabited

/-- Where the stretch ends. -/
def NodeRange.stop (r : NodeRange) : Nat :=
  r.start + r.length

/-- One construct of a program, with references to its parts. -/
inductive Node where
  | empty
  | sequence (statements : NodeRange)
  | assignment (op : Assignment) (target value : NodeId)
  | conditional (clauses : NodeRange) (otherwise : Option NodeId)
  | clause (predicate body : NodeId)
  | foreach (vars : NodeRange) (iterable body : NodeId)
  | jump (kind : Jump)
  | unary (op : PrefixOp) (operand : NodeId)
  | logical (op : Connective) (lhs rhs : NodeId)
  | ternary (condition thenBranch elseBranch : NodeId)
  | arithmetic (op : Arithmetic) (lhs rhs : NodeId)
  | relational (op : Comparison) (lhs rhs : NodeId)
  | member (object field : NodeId)
  | index (target position : NodeId)
  | application (callee : NodeId) (args kwargs : NodeRange)
  | keywordArg (key value : NodeId)
  | name (text : TextId)
  | bool (value : Bool)
  | number (value : Int64)
  | string (content : TextId)
  | array (items : NodeRange)
  | dictionary (entries : NodeRange)
  | keyValue (key value : NodeId)
deriving DecidableEq, Repr, Inhabited

/-- Whether the node is a name. -/
def Node.isName : Node → Bool
  | .name _ => true
  | _ => false

/-- A program in flat form, or the parts of one. -/
structure Arena where
  nodes : Array Node
  /-- The child lists of all nodes, one after the other. -/
  lists : Array NodeId
  texts : Array String
  /-- The most nodes that may be allocated, if there is a limit. -/
  maxNodes : Option Nat
deriving DecidableEq, Repr, Inhabited

namespace Arena

/-- The arena without nodes. -/
def empty (maxNodes : Option Nat) : Arena :=
  { nodes := #[], lists := #[], texts := #[], maxNodes }

/-!
### Looking up
-/

/-- The node with the given number. -/
def node? (a : Arena) (id : NodeId) : Option Node :=
  a.nodes[id.index]?

/-- The text with the given number. -/
def text? (a : Arena) (id : TextId) : Option String :=
  a.texts[id.index]?

/-- The entries of a stretch of list storage that lies inside it. -/
def list? (a : Arena) (r : NodeRange) : Option (List NodeId) :=
  if r.stop ≤ a.lists.size then some (a.lists.extract r.start r.stop).toList else none

/-- The parts of a node, in the order in which the source has them. -/
def parts? (a : Arena) : Node → Option (List NodeId)
  | .empty | .jump _ | .name _ | .bool _ | .number _ | .string _ => some []
  | .sequence items | .array items | .dictionary items => a.list? items
  | .conditional clauses otherwise => do
      let clauses ← a.list? clauses
      return clauses ++ otherwise.toList
  | .foreach vars iterable body => do
      let vars ← a.list? vars
      return vars ++ [iterable, body]
  | .application callee args kwargs => do
      let args ← a.list? args
      let kwargs ← a.list? kwargs
      return callee :: (args ++ kwargs)
  | .unary _ operand => some [operand]
  | .ternary condition yes no => some [condition, yes, no]
  | .assignment _ x y | .logical _ x y | .arithmetic _ x y | .relational _ x y => some [x, y]
  | .clause x y | .member x y | .index x y | .keywordArg x y | .keyValue x y => some [x, y]

/-- The parts of the node with the given number. The parts themselves are not looked up. -/
def children? (a : Arena) (id : NodeId) : Option (List NodeId) := do
  a.parts? (← a.node? id)

/-!
### Growing
-/

/-- Whether the limit lets no further node in. The limit is all that ends growing: numbers have no largest one
    here, and storage never runs out. -/
def isFull (a : Arena) : Bool :=
  match a.maxNodes with
  | some limit => limit ≤ a.nodes.size
  | none => false

/-- Puts a node behind the others. -/
def add (a : Arena) (node : Node) : NodeId × Arena :=
  (⟨a.nodes.size⟩, { a with nodes := a.nodes.push node })

/-- Puts a node behind the others if the limit allows it. -/
def push? (a : Arena) (node : Node) : Option (NodeId × Arena) :=
  if a.isFull then none else some (a.add node)

/-- Puts a list behind the others. -/
def addList (a : Arena) (ids : List NodeId) : NodeRange × Arena :=
  (⟨a.lists.size, ids.length⟩, { a with lists := a.lists ++ ids.toArray })

/-- Puts a text behind the others. -/
def addText (a : Arena) (text : String) : TextId × Arena :=
  (⟨a.texts.size⟩, { a with texts := a.texts.push text })

end Arena

end BuildScript
