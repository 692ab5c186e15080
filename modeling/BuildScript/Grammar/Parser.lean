/-
Module: BuildScript.Grammar.Parser
Layer: grammar
Purpose: The steps that grammar rules are made of. A parser reads terminals from the front of the input and
  counts the nodes it builds against the limit. It looks no further than the first terminal left, and
  what it has read and built when it fails can still be seen.
  A production either builds a tree, or finds nothing it knows and leaves everything as it was, or
  fails. Productions that fill an arena take the same steps, and put nodes where these build trees.
Main exports: Parser, Production, Parser.peek, Parser.accept, Parser.take?, Parser.build, Parser.require
-/
import BuildScript.Grammar.SyntaxError
import BuildScript.Token.Terminal
import BuildScript.Tree.Basic

namespace BuildScript

/-- Where a reading stands. -/
structure Parser.State where
  /-- The terminals still to be read. -/
  input : List Terminal
  /-- How many nodes have been built. -/
  built : Nat
  /-- The most nodes that may be built, if there is a limit. -/
  limit : Option Nat
deriving DecidableEq, Repr, Inhabited

/-- A step of a reading. -/
abbrev Parser := EStateM ParseError Parser.State

/-- A grammar rule: a tree, or nothing if the input does not begin with one. -/
abbrev Production := Parser (Option Tree)

namespace Parser

/-!
### Reading
-/

/-- The terminal that comes next. -/
def peek : Parser (Option Terminal) := fun s =>
  .ok s.input.head? s

/-- Reads the terminal that comes next. -/
def skip : Parser Unit := fun s =>
  .ok () { s with input := s.input.tail }

/-- Reads the terminal that comes next if it is `t`, and tells whether it was. -/
def accept (t : Terminal) : Parser Bool := fun s =>
  match s.input with
  | next :: rest => if next = t then .ok true { s with input := rest } else .ok false s
  | [] => .ok false s

/-- Reads the terminal that comes next if `f` makes something of it, and gives that. -/
def take? {α : Type} (f : Terminal → Option α) : Parser (Option α) := fun s =>
  match s.input with
  | next :: rest =>
      match f next with
      | some x => .ok (some x) { s with input := rest }
      | none => .ok none s
  | [] => .ok none s

/-!
### Failing
-/

/-- Rejects the input. -/
def reject {α : Type} (cause : SyntaxError) : Parser α :=
  throw (.rejected cause)

/-- Reads `t`, which has to come next. -/
def expect (t : Terminal) (cause : SyntaxError) : Parser Unit := do
  unless ← accept t do reject cause

/-- The tree of a production that has to find one. -/
def require (p : Production) (cause : SyntaxError) : Parser Tree := do
  match ← p with
  | some t => return t
  | none => reject cause

/-!
### Building
-/

/-- Builds a node, for which there must be room. -/
def build (t : Tree) : Parser Tree := fun s =>
  if s.limit.any (· ≤ s.built) then .error .outOfMemory s
  else .ok t { s with built := s.built + 1 }

/-- What stands on the left of an operator; an empty node if nothing does. -/
def leftOperand : Option Tree → Parser Tree
  | some t => return t
  | none => build .empty

end Parser

end BuildScript
