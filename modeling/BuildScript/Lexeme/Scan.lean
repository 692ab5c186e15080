/-
Module: BuildScript.Lexeme.Scan
Layer: lexemes
Purpose: Recognising the lexeme under a cursor. Its first byte decides what it is; words and numbers take
  the longest run of word bytes, strings run to their closing mark, operators take an equals sign that
  directly follows. Faulty input is a lexeme of its own kind, so every byte of a source is in one.
Main exports: Cursor.recognize, Cursor.scan
-/
import BuildScript.Lexeme.Basic
import BuildScript.Source.Cursor

namespace BuildScript.Cursor

/-- A number that went wrong takes the rest of its word with it. -/
def malformedNumber (c : Cursor) : Lexeme.Kind × Cursor :=
  (.malformedNumber, c.skipWhile Byte.isWordByte)

/-- The digits under the cursor, which must end at a boundary. -/
def digits (c : Cursor) (radix : Radix) : Lexeme.Kind × Cursor :=
  let after := c.skipWhile radix.isDigit
  if Byte.isBoundary after.current? then (.number radix, after) else after.malformedNumber

/-- The radix that a zero under the cursor and the letter after it announce. -/
def radixMark? (c : Cursor) : Option Radix :=
  if c.current == '0'.toUInt8 then Radix.ofMarker? c.peek else none

/-- A number literal: decimal digits, or a radix mark with at least one digit. -/
def number (c : Cursor) : Lexeme.Kind × Cursor :=
  match c.radixMark? with
  | none => c.digits .decimal
  | some radix =>
      let after := c.forward 2
      if radix.isDigit after.current then after.digits radix else after.malformedNumber

/-- How the string under the cursor is delimited. -/
def quoting (c : Cursor) : Quoting :=
  if c.peek == Byte.quote && c.peekSecond == Byte.quote then .triple else .single

/-- A string, up to and with its next closing mark. -/
def string (c : Cursor) : Lexeme.Kind × Cursor :=
  let quoting := c.quoting
  let (closed, after) := (c.forward quoting.markBytes.length).skipPast quoting.markBytes
  (if closed then .string quoting else .unterminated quoting, after)

/-- A sign, together with an equals sign after it where the two form one. -/
def sign (c : Cursor) (alone : Lexeme.Kind) (extended : Option Punct) : Lexeme.Kind × Cursor :=
  let after := c.step
  match extended with
  | some longer =>
      if after.current == Byte.equals then (.punct longer, after.step) else (alone, after)
  | none => (alone, after)

/-- Kind of the lexeme under the cursor, and the cursor behind it. -/
def recognize (c : Cursor) : Lexeme.Kind × Cursor :=
  let first := c.current
  if first == 0 && c.isEnd then (.finish, c)
  else if Byte.isBlank first then (.space, c.skipWhile Byte.isBlank)
  else if first == Byte.hash then (.comment, c.skipToNewline)
  else if Byte.isWordStart first then (.word, c.skipWhile Byte.isWordByte)
  else if Byte.isDigit first then c.number
  else if first == Byte.quote then c.string
  else if first == Byte.bang then c.sign .loneBang (some .bangEq)
  else
    match Punct.ofByte? first with
    | some p => c.sign (.punct p) p.withEquals?
    | none => (.invalidChar, c.skipChar)

/-- The lexeme under the cursor, and the cursor behind it. At the end of the source the cursor stays. -/
def scan (c : Cursor) : Lexeme × Cursor :=
  let (kind, after) := c.recognize
  ({ kind, length := after.position - c.position }, after)

end BuildScript.Cursor
