/-
Module: BuildScript.Program
Layer: programs
Purpose: From a source to a program and back. A program is read into flat form, and shown through the tree of
  its root. The same reading with trees for nodes is kept beside it, for what is said about programs.
Main exports: Ast, parse, parseTerminals, Ast.sexpr?, Ast.source, Ast.nodeCount?, readTree
-/
import BuildScript.Arena.Kind
import BuildScript.Arena.Layout
import BuildScript.Arena.Reach
import BuildScript.Arena.Unfold
import BuildScript.Flat.Statement

namespace BuildScript

/-- A program in flat form. -/
structure Ast where
  arena : Arena
  root : NodeId
deriving DecidableEq, Repr, Inhabited

namespace Ast

/-- The program with its references followed. -/
def tree (ast : Ast) : Tree :=
  ast.arena.tree ast.root

/-- The shape of the program, if nothing of it is missing. -/
def sexpr? (ast : Ast) : Option String :=
  ast.arena.sexpr? ast.root

/-- The program as source text. -/
def source (ast : Ast) : Spelling String :=
  ast.arena.spelling ast.root

/-- How many nodes belong to the program. -/
def nodeCount? (ast : Ast) : Option Nat :=
  ast.arena.nodeCount? ast.root

/-- The kind of the root. -/
def rootKind? (ast : Ast) : Option Node.Kind :=
  (ast.arena.node? ast.root).map Node.kind

end Ast

/-- The reading of terminals into an arena: the root or the failure, and where the reading then stands. -/
def parseTerminals (maxNodes : Option Nat) (input : List Terminal) :
    EStateM.Result ParseError Flat.State NodeId :=
  (Flat.program input.length).run { input, arena := Arena.empty maxNodes }

/-- The program that a source is, of at most `maxNodes` nodes. What a failed reading has put into its arena is
    dropped. -/
def parse (source : String) (maxNodes : Option Nat) : Except ParseError Ast :=
  match parseTerminals maxNodes (terminals source) with
  | .ok root s => .ok { arena := s.arena, root }
  | .error e _ => .error e

/-!
### Trees
-/

/-- A tree in flat form, for a program with the given limit. -/
def Tree.toAst (t : Tree) (maxNodes : Option Nat) : Ast :=
  let (root, arena) := (t.layOut (Arena.empty maxNodes)).run
  { arena, root }

/-- The reading of terminals as a tree: the tree or the failure, and where the reading then stands. -/
def readTerminals (maxNodes : Option Nat) (input : List Terminal) :
    EStateM.Result ParseError Parser.State Tree :=
  (Grammar.program input.length).run { input, built := 0, limit := maxNodes }

/-- The reading of a source as a tree of at most `maxNodes` nodes. -/
def readTree (maxNodes : Option Nat) (source : String) : Except ParseError Tree :=
  match readTerminals maxNodes (terminals source) with
  | .ok t _ => .ok t
  | .error e _ => .error e

end BuildScript
