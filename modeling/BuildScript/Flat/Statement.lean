/-
Module: BuildScript.Flat.Statement
Layer: grammar
Purpose: The productions for statements and programs, filling an arena.
Main exports: Flat.statement, Flat.body, Flat.program
-/
import BuildScript.Flat.Expression
import BuildScript.Grammar.Statement

namespace BuildScript.Flat

open BuildScript.Parser Grammar

/-- Statements up to the first terminal that begins none. -/
def statements (statement : Production) : (bound : Nat) → Step (List NodeId)
  | 0 => return []
  | bound + 1 => do
      match ← statement with
      | none => return []
      | some first =>
          let others ← statements statement bound
          return first :: others

/-- Statements as a body: an empty node if there are none. -/
def body (statement : Production) (bound : Nat) : Step NodeId := do
  match ← statements statement bound with
  | [] => alloc .empty
  | all =>
      let all ← allocList all
      alloc (.sequence all)

/-- One or more clauses of a conditional. The word in front of the first has been read. -/
def clauses (expr : Production) (body : Step NodeId) : (bound : Nat) → Step (List NodeId)
  | 0 => return [← clause]
  | bound + 1 => do
      let first ← clause
      if ← accept (.keyword .kwElif) then
        let others ← clauses expr body bound
        return first :: others
      else return [first]
where
  /-- A predicate and what is done when it holds. -/
  clause : Step NodeId := do
    let predicate ← require expr .predicate
    let body ← body
    alloc (.clause predicate body)

/-- The body for when no clause applies, if there is one. -/
def otherwise (body : Step NodeId) : Step (Option NodeId) := do
  if ← accept (.keyword .kwElse) then return some (← body) else return none

/-- A conditional. Its first word has been read. -/
def choice (expr : Production) (body : Step NodeId) (bound : Nat) : Step NodeId := do
  let clauses ← clauses expr body bound
  let otherwise ← otherwise body
  expect (.keyword .kwEndif) .endif
  let clauses ← allocList clauses
  alloc (.conditional clauses otherwise)

/-- One or more loop variables. -/
def loopVariables : (bound : Nat) → Step (List NodeId)
  | 0 => return [← require name .loopVariable]
  | bound + 1 => do
      let first ← require name .loopVariable
      if ← accept (.punct .comma) then
        let others ← loopVariables bound
        return first :: others
      else return [first]

/-- A loop. Its first word has been read. -/
def loop (expr : Production) (body : Step NodeId) (bound : Nat) : Step NodeId := do
  let vars ← loopVariables bound
  expect (.punct .colon) .loopColon
  let iterable ← require expr .loopIterable
  let body ← body
  expect (.keyword .kwEndforeach) .endforeach
  let vars ← allocList vars
  alloc (.foreach vars iterable body)

/-- A statement with statements nested at most `bound` deep in it. -/
def statement : (bound : Nat) → Production
  | 0 => return none
  | bound + 1 => do
      match ← take? opening? with
      | some .choice =>
          return some (← choice (expression bound) (body (statement bound) bound) bound)
      | some .loop => return some (← loop (expression bound) (body (statement bound) bound) bound)
      | some (.jump kind) => return some (← alloc (.jump kind))
      | none => expression (bound + 1)

/-- A whole program: statements, and nothing behind them. -/
def program (bound : Nat) : Step NodeId := do
  let root ← body (statement bound) bound
  match ← peek with
  | none => return root
  | some _ => reject .endOfInput

end BuildScript.Flat
