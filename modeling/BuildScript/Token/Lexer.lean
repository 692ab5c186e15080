/-
Module: BuildScript.Token.Lexer
Layer: tokens
Purpose: Drawing tokens from a source one at a time. A lexer remembers how far it has read. After its first
  fault it yields the faulty token forever, since nothing behind it can be trusted; at the end of the
  source it yields the end forever.
Main exports: Lexer, Lexer.ofSource, Lexer.draw, Lexer.next?, Lexer.drain, lex
-/
import BuildScript.Lexeme.Scan
import BuildScript.Token.Basic
import BuildScript.Token.Fault

namespace BuildScript

/-- A source in the course of being read. -/
structure Lexer where
  buffer : Buffer
  /-- Where the next lexeme begins. -/
  position : Nat
  /-- The fault that ended the reading. -/
  fault? : Option Fault
  /-- Whether iteration has come to its end. -/
  finished : Bool
deriving DecidableEq, Repr, Inhabited

namespace Lexer

/-- The lexer in front of a source. -/
def ofSource (source : String) : Lexer :=
  { buffer := Buffer.ofSource source, position := 0, fault? := none, finished := false }

end Lexer

/-!
### From lexemes to tokens
-/

namespace Buffer

/-- Kind of the word from `start` up to `stop`. A reserved word counts as one only in front of a
    boundary; glued to anything else it is a name. -/
def wordKind (buffer : Buffer) (start stop : Nat) : Token.Kind :=
  match Keyword.ofText? (buffer.text start stop) with
  | some word => if Byte.isBoundary (buffer.byteAt? stop) then .keyword word else .name
  | none => .name

/-- The first character from `start` up to `stop`; the zero character if there is no whole one. -/
def firstChar (buffer : Buffer) (start stop : Nat) : Char :=
  ((buffer.text start stop).toList.head?).getD (Char.ofNat 0)

/-- What is wrong with a lexeme of the given kind from `start` up to `stop`. -/
def defect? (buffer : Buffer) (start stop : Nat) : Lexeme.Kind → Option Defect
  | .invalidChar => some (.invalidCharacter (buffer.firstChar start stop))
  | .unterminated quoting => some (.unterminated quoting)
  | .malformedNumber => some .malformedNumber
  | .loneBang => some .loneBang
  | .word | .number _ | .string _ | .punct _ | .space | .comment | .finish => none

/-- Kind and text of the token that a lexeme from `start` up to `stop` is. -/
def meaning (buffer : Buffer) (start stop : Nat) : Lexeme.Kind → Token.Kind × String
  | .word => (buffer.wordKind start stop, buffer.text start stop)
  | .number .decimal => (.number .decimal, buffer.text start stop)
  | .number .binary => (.number .binary, buffer.text (start + 2) stop)
  | .number .octal => (.number .octal, buffer.text (start + 2) stop)
  | .number .hexadecimal => (.number .hexadecimal, buffer.text (start + 2) stop)
  | .string quoting =>
      let width := quoting.markBytes.length
      (.string quoting, buffer.text (start + width) (stop - width))
  | .punct sign => (.punct sign, sign.text)
  | .finish => (.finish, "")
  | .space | .comment | .invalidChar | .unterminated _ | .malformedNumber | .loneBang =>
      (.invalid, buffer.text start stop)

/-- The token that a lexeme at `start` is. -/
def token (buffer : Buffer) (start : Nat) (lexeme : Lexeme) : Token :=
  let stop := start + lexeme.length
  let (kind, text) := buffer.meaning start stop lexeme.kind
  { kind, text, span := { start, stop } }

/-- The fault that a lexeme at `start` is. -/
def fault? (buffer : Buffer) (start : Nat) (lexeme : Lexeme) : Option Fault :=
  let stop := start + lexeme.length
  (buffer.defect? start stop lexeme.kind).map fun defect => { defect, span := { start, stop } }

/-- The token of a fault: the whole faulty text. -/
def faultToken (buffer : Buffer) (fault : Fault) : Token :=
  { kind := .invalid, text := buffer.text fault.span.start fault.span.stop, span := fault.span }

end Buffer

/-- The cursor in front of the next lexeme that is no trivia, when `steps` lexemes may be skipped. -/
def Cursor.skipTrivia : (steps : Nat) → Cursor → Cursor
  | 0, c => c
  | steps + 1, c =>
      let (lexeme, after) := c.scan
      if lexeme.kind.isTrivia then after.skipTrivia steps else c

/-!
### Drawing
-/

namespace Lexer

/-- The next token, and the lexer behind it. No trivia is empty, so the steps given to the search for
    the next token reach the end of the source. -/
def draw (lexer : Lexer) : Token × Lexer :=
  match lexer.fault? with
  | some fault => (lexer.buffer.faultToken fault, lexer)
  | none =>
      let start := (lexer.buffer.cursorFrom lexer.position).skipTrivia lexer.buffer.bytes.size
      let (lexeme, after) := start.scan
      (lexer.buffer.token start.position lexeme,
        { lexer with
          position := after.position
          fault? := lexer.buffer.fault? start.position lexeme })

/-- Iteration: every token up to, not including, the end. A faulty token is the last of them. -/
def next? (lexer : Lexer) : Option Token × Lexer :=
  if lexer.finished then (none, lexer)
  else
    let (token, after) := lexer.draw
    let after := { after with finished := token.isLast }
    (if token.kind = .finish then none else some token, after)

/-- Draws tokens behind those already `drawn`, until one is the last or `steps` more are drawn. -/
def drain : (steps : Nat) → Lexer → (drawn : Array Token) → Array Token × Lexer
  | 0, lexer, drawn => (drawn, lexer)
  | steps + 1, lexer, drawn =>
      let (token, after) := lexer.draw
      if token.isLast then (drawn.push token, after)
      else after.drain steps (drawn.push token)

/-- The whole of a source, and the lexer that has read it. Every token but the last has a byte of its
    own, so there are no more than the buffer has bytes. -/
def run (source : String) : Array Token × Lexer :=
  let lexer := ofSource source
  lexer.drain lexer.buffer.bytes.size #[]

end Lexer

/-- The tokens of a source. The last one is its end, or its first fault. -/
def lex (source : String) : Array Token :=
  (Lexer.run source).1

end BuildScript
