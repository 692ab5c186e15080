/-
Module: BuildScript.Source.Cursor
Layer: source text
Purpose: A reading position in a buffer, with the moves that lexemes are recognised by: step, run over a
  class, search for a byte sequence.
Main exports: Cursor, Buffer.cursor, Buffer.cursorFrom, Cursor.skipWhile, Cursor.skipToNewline,
  Cursor.skipPast, Cursor.skipChar
-/
import BuildScript.Source.Buffer
import BuildScript.Source.Byte

namespace BuildScript

/-- A position in a buffer. -/
structure Cursor where
  buffer : Buffer
  position : Nat
deriving DecidableEq, Repr, Inhabited

/-- The cursor in front of the first byte. -/
def Buffer.cursor (buffer : Buffer) : Cursor :=
  { buffer, position := 0 }

/-- The cursor at byte `i`, or at the end of the source if that is nearer. -/
def Buffer.cursorFrom (buffer : Buffer) (i : Nat) : Cursor :=
  { buffer, position := min i buffer.length }

namespace Cursor

/-!
### Looking
-/

/-- The byte under the cursor; zero from the end of the source on. -/
def current (c : Cursor) : UInt8 :=
  c.buffer.byteAt c.position

/-- The byte after the current one. -/
def peek (c : Cursor) : UInt8 :=
  c.buffer.byteAt (c.position + 1)

/-- The second byte after the current one. -/
def peekSecond (c : Cursor) : UInt8 :=
  c.buffer.byteAt (c.position + 2)

/-- Whether nothing of the source is left. -/
def isEnd (c : Cursor) : Bool :=
  c.current == 0 && c.buffer.length ≤ c.position

/-- The byte under the cursor, if the source is not at its end. -/
def current? (c : Cursor) : Option UInt8 :=
  if c.isEnd then none else some c.current

/-!
### Moving
-/

/-- One byte on. -/
def step (c : Cursor) : Cursor :=
  { c with position := c.position + 1 }

/-- On by `n` bytes. -/
def forward (c : Cursor) (n : Nat) : Cursor :=
  { c with position := c.position + n }

/-- Past the whole character under the cursor, but at least one byte and not beyond the source. -/
def skipChar (c : Cursor) : Cursor :=
  { c with
    position := min (c.position + Byte.charWidth c.current) (max c.buffer.length (c.position + 1)) }

/-- Past the longest run of `inRun` bytes. A class without the zero byte stops at the sentinel. -/
def skipWhile (c : Cursor) (inRun : UInt8 → Bool) : Cursor :=
  { c with
    position := c.buffer.runEnd inRun (c.buffer.bytes.size - c.position) c.position }

/-- To the end of the source. -/
def toEnd (c : Cursor) : Cursor :=
  { c with position := c.buffer.length }

/-- How far ahead the source next holds `needle`. A cursor past the end searches from the end. -/
def distance? (c : Cursor) (needle : List UInt8) : Option Nat :=
  let start := min c.position c.buffer.length
  (c.buffer.find? needle start).map (· - start)

/-- To the next line feed, which stays unread, or to the end of the source. -/
def skipToNewline (c : Cursor) : Cursor :=
  match c.distance? [Byte.newline] with
  | some d => c.forward d
  | none => c.toEnd

/-- Past the next `needle`; to the end of the source, with answer `false`, if there is none. -/
def skipPast (c : Cursor) (needle : List UInt8) : Bool × Cursor :=
  match c.distance? needle with
  | some d => (true, c.forward (d + needle.length))
  | none => (false, c.toEnd)

end Cursor

end BuildScript
