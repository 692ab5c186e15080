/-
Module: BuildScript.Flat.Step
Layer: grammar
Purpose: The steps of a reading that fills an arena. What is read comes off the input as for trees; what is
  found goes into the arena at once. A node is put behind its parts, a list directly before the node that it
  belongs to, and so is a text. Only nodes are limited.
Main exports: Flat.Step, Flat.Production, Flat.alloc, Flat.allocList, Flat.allocText, Flat.isName
-/
import BuildScript.Arena.Basic
import BuildScript.Grammar.Parser

namespace BuildScript.Flat

open BuildScript.Parser

/-- Where a reading stands that fills an arena. -/
structure State where
  /-- The terminals still to be read. -/
  input : List Terminal
  /-- What has been found so far. -/
  arena : Arena
deriving DecidableEq, Repr, Inhabited

/-- The same place in a reading that only counts its nodes. -/
def State.counted (s : State) : Parser.State :=
  { input := s.input, built := s.arena.nodes.size, limit := s.arena.maxNodes }

/-- A step of a reading that fills an arena. -/
abbrev Step := EStateM ParseError State

/-- A grammar rule: the number of a node, or nothing if the input does not begin with what the rule is for. -/
abbrev Production := Step (Option NodeId)

/-!
### Reading
-/

/-- A step that reads and leaves the arena as it is. -/
def reading {α : Type} (x : Parser α) : Step α := fun s =>
  match x s.counted with
  | .ok a after => .ok a { s with input := after.input }
  | .error e after => .error e { s with input := after.input }

instance : MonadLift Parser Step where
  monadLift := reading

/-- The node of a production that has to find one. -/
def require (p : Production) (cause : SyntaxError) : Step NodeId := do
  match ← p with
  | some id => return id
  | none => reject cause

/-!
### Filling the arena
-/

/-- Puts a node into the arena, in which there must be room. -/
def alloc (node : Node) : Step NodeId := fun s =>
  match s.arena.push? node with
  | some (id, arena) => .ok id { s with arena }
  | none => .error .outOfMemory s

/-- Puts a list of nodes into the arena. -/
def allocList (ids : List NodeId) : Step NodeRange := fun s =>
  let (range, arena) := s.arena.addList ids
  .ok range { s with arena }

/-- Puts a text into the arena. -/
def allocText (text : String) : Step TextId := fun s =>
  let (id, arena) := s.arena.addText text
  .ok id { s with arena }

/-- What stands on the left of an operator; an empty node if nothing does. -/
def leftOperand : Option NodeId → Step NodeId
  | some id => return id
  | none => alloc .empty

/-- Whether the node with the given number is a name. -/
def isName (id : NodeId) : Step Bool := fun s =>
  .ok ((s.arena.node? id).any Node.isName) s

end BuildScript.Flat
