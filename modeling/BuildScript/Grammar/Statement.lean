/-
Module: BuildScript.Grammar.Statement
Layer: grammar
Purpose: Statements and programs. Statements follow each other without separators; one ends where the
  grammar of expressions stops. The bodies of conditionals and loops are programs of their own, closed by
  a word. Bounds are used as for expressions.
Main exports: statement, body, program
-/
import BuildScript.Grammar.Expression

namespace BuildScript.Grammar

open BuildScript.Parser

/-- Statements up to the first terminal that begins none. -/
def statements (statement : Production) : (bound : Nat) → Parser (List Tree)
  | 0 => return []
  | bound + 1 => do
      match ← statement with
      | none => return []
      | some first =>
          let others ← statements statement bound
          return first :: others

/-- Statements as a body: an empty node if there are none. -/
def body (statement : Production) (bound : Nat) : Parser Tree := do
  match ← statements statement bound with
  | [] => build .empty
  | all => build (.sequence all)

/-- One or more clauses of a conditional. The word in front of the first has been read. -/
def clauses (expr : Production) (body : Parser Tree) : (bound : Nat) → Parser (List Tree)
  | 0 => return [← clause]
  | bound + 1 => do
      let first ← clause
      if ← accept (.keyword .kwElif) then
        let others ← clauses expr body bound
        return first :: others
      else return [first]
where
  /-- A predicate and what is done when it holds. -/
  clause : Parser Tree := do
    let predicate ← require expr .predicate
    let body ← body
    build (.clause predicate body)

/-- The body for when no clause applies, if there is one. -/
def otherwise (body : Parser Tree) : Parser (Option Tree) := do
  if ← accept (.keyword .kwElse) then return some (← body) else return none

/-- A conditional. Its first word has been read. -/
def choice (expr : Production) (body : Parser Tree) (bound : Nat) : Parser Tree := do
  let clauses ← clauses expr body bound
  let otherwise ← otherwise body
  expect (.keyword .kwEndif) .endif
  build (.conditional clauses otherwise)

/-- One or more loop variables. -/
def loopVariables : (bound : Nat) → Parser (List Tree)
  | 0 => return [← require name .loopVariable]
  | bound + 1 => do
      let first ← require name .loopVariable
      if ← accept (.punct .comma) then
        let others ← loopVariables bound
        return first :: others
      else return [first]

/-- A loop. Its first word has been read. -/
def loop (expr : Production) (body : Parser Tree) (bound : Nat) : Parser Tree := do
  let vars ← loopVariables bound
  expect (.punct .colon) .loopColon
  let iterable ← require expr .loopIterable
  let body ← body
  expect (.keyword .kwEndforeach) .endforeach
  build (.foreach vars iterable body)

/-- What begins a statement that is no expression. -/
inductive Opening where
  | choice
  | loop
  | jump (kind : Jump)
deriving DecidableEq, Repr, Inhabited

/-- The statement that a terminal begins. -/
def opening? : Terminal → Option Opening
  | .keyword .kwIf => some .choice
  | .keyword .kwForeach => some .loop
  | .keyword .kwBreak => some (.jump .stop)
  | .keyword .kwContinue => some (.jump .skip)
  | _ => none

/-- A statement with statements nested at most `bound` deep in it. -/
def statement : (bound : Nat) → Production
  | 0 => return none
  | bound + 1 => do
      match ← take? opening? with
      | some .choice =>
          return some (← choice (expression bound) (body (statement bound) bound) bound)
      | some .loop => return some (← loop (expression bound) (body (statement bound) bound) bound)
      | some (.jump kind) => return some (← build (.jump kind))
      | none => expression (bound + 1)

/-- A whole program: statements, and nothing behind them. -/
def program (bound : Nat) : Parser Tree := do
  let root ← body (statement bound) bound
  match ← peek with
  | none => return root
  | some _ => reject .endOfInput

end BuildScript.Grammar
