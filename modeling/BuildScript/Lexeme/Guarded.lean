/-
Module: BuildScript.Lexeme.Guarded
Layer: lexemes
Purpose: The scan of lexemes with a guard on every step. A byte is only looked at where the buffer has one, a
  stretch of bytes is only searched if it lies in the buffer, and positions and lengths are numbers of 32
  bits, whose sums and differences have to be such numbers again. A step that would go beyond gives
  nothing, and so does a scan that takes it.
Main exports: Position.add?, Position.sub?, Guarded.read, Guarded.skipWhile, Guarded.rest, Guarded.scan,
  Guarded.cursorFrom
-/
import BuildScript.Lexeme.Scan

namespace BuildScript

namespace Position

/-- Positions and lengths are below this. -/
def limit : Nat :=
  UInt32.size

/-- The sum, if it is a position. -/
def add? (a b : Nat) : Option Nat :=
  if a + b < limit then some (a + b) else none

/-- The difference, if there is one. -/
def sub? (a b : Nat) : Option Nat :=
  if b ≤ a then some (a - b) else none

end Position

/-- Where the run of `inRun` bytes from `i` ends. It does not end by itself at the end of the buffer. -/
def Buffer.runEnd? (buffer : Buffer) (inRun : UInt8 → Bool) (i : Nat) : Option Nat :=
  match _read : buffer.bytes[i]? with
  | none => none
  | some b =>
      if inRun b then
        match _next : Position.add? i 1 with
        | none => none
        | some next => buffer.runEnd? inRun next
      else some i
termination_by buffer.bytes.size - i
decreasing_by
  obtain ⟨inside, -⟩ := Array.getElem?_eq_some_iff.mp _read
  unfold Position.add? at _next
  split at _next
  · cases _next
    omega
  · cases _next

/-- How far into the bytes `needle` first stands. -/
def offset? (needle : List UInt8) : List UInt8 → Option Nat
  | [] => if needle.isEmpty then some 0 else none
  | b :: rest => if needle.isPrefixOf (b :: rest) then some 0 else (offset? needle rest).map (· + 1)

namespace Cursor.Guarded

/-- The cursor at byte `i`, or at the end of the source if that is nearer. There have to be bytes to look
    ahead at behind the source. -/
def cursorFrom (buffer : Buffer) (i : Nat) : Option Cursor := do
  if buffer.length + 2 < buffer.bytes.size then
    let position ← Position.add? 0 (min i buffer.length)
    return { buffer, position }
  else none

/-!
### Looking
-/

/-- The byte `ahead` bytes behind the current one. -/
def read (c : Cursor) (ahead : Nat) : Option UInt8 :=
  c.buffer.bytes[c.position + ahead]?

/-- Whether nothing of the source is left. -/
def isEnd (c : Cursor) : Option Bool := do
  let first ← read c 0
  return first == 0 && c.buffer.length ≤ c.position

/-- The byte under the cursor, if the source is not at its end. -/
def current? (c : Cursor) : Option (Option UInt8) := do
  if ← isEnd c then return none
  let first ← read c 0
  return some first

/-- The source bytes from the cursor on, which are the ones to search. -/
def rest (c : Cursor) : Option (List UInt8) :=
  let start := min c.position c.buffer.length
  if start ≤ c.buffer.length ∧ c.buffer.length ≤ c.buffer.bytes.size then
    some (c.buffer.bytes.extract start c.buffer.length).toList
  else none

/-!
### Moving
-/

/-- On by `n` bytes. -/
def forward (c : Cursor) (n : Nat) : Option Cursor := do
  let position ← Position.add? c.position n
  return { c with position }

/-- Past the whole character under the cursor, but at least one byte and not beyond the source. -/
def skipChar (c : Cursor) : Option Cursor := do
  let first ← read c 0
  let far ← Position.add? c.position (Byte.charWidth first)
  let next ← Position.add? c.position 1
  return { c with position := min far (max c.buffer.length next) }

/-- Past the longest run of `inRun` bytes. -/
def skipWhile (c : Cursor) (inRun : UInt8 → Bool) : Option Cursor := do
  let position ← c.buffer.runEnd? inRun c.position
  return { c with position }

/-- To the next line feed, which stays unread, or to the end of the source. -/
def skipToNewline (c : Cursor) : Option Cursor := do
  let bytes ← rest c
  match offset? [Byte.newline] bytes with
  | some d => forward c d
  | none => return c.toEnd

/-- Past the next `needle`; to the end of the source, with answer `false`, if there is none. -/
def skipPast (c : Cursor) (needle : List UInt8) : Option (Bool × Cursor) := do
  let bytes ← rest c
  match offset? needle bytes with
  | some d =>
      let distance ← Position.add? d needle.length
      let after ← forward c distance
      return (true, after)
  | none => return (false, c.toEnd)

/-!
### Lexemes
-/

/-- A number that went wrong takes the rest of its word with it. -/
def malformedNumber (c : Cursor) : Option (Lexeme.Kind × Cursor) := do
  let after ← skipWhile c Byte.isWordByte
  return (.malformedNumber, after)

/-- The digits under the cursor, which must end at a boundary. -/
def digits (c : Cursor) (radix : Radix) : Option (Lexeme.Kind × Cursor) := do
  let after ← skipWhile c radix.isDigit
  let next ← current? after
  if Byte.isBoundary next then return (.number radix, after) else malformedNumber after

/-- The radix that a zero under the cursor and the letter after it announce. -/
def radixMark? (c : Cursor) : Option (Option Radix) := do
  let first ← read c 0
  if first == '0'.toUInt8 then
    let second ← read c 1
    return Radix.ofMarker? second
  else return none

/-- A number literal: decimal digits, or a radix mark with at least one digit. -/
def number (c : Cursor) : Option (Lexeme.Kind × Cursor) := do
  match ← radixMark? c with
  | none => digits c .decimal
  | some radix =>
      let after ← forward c 2
      let first ← read after 0
      if radix.isDigit first then digits after radix else malformedNumber after

/-- How the string under the cursor is delimited. The third byte is only looked at behind two quotes. -/
def quoting (c : Cursor) : Option Quoting := do
  let second ← read c 1
  if second == Byte.quote then
    let third ← read c 2
    return if third == Byte.quote then .triple else .single
  else return .single

/-- A string, up to and with its next closing mark. -/
def string (c : Cursor) : Option (Lexeme.Kind × Cursor) := do
  let quoting ← quoting c
  let inside ← forward c quoting.markBytes.length
  let (closed, after) ← skipPast inside quoting.markBytes
  return (if closed then .string quoting else .unterminated quoting, after)

/-- A sign, together with an equals sign after it where the two form one. -/
def sign (c : Cursor) (alone : Lexeme.Kind) (extended : Option Punct) : Option (Lexeme.Kind × Cursor) := do
  let after ← forward c 1
  match extended with
  | none => return (alone, after)
  | some longer =>
      let next ← read after 0
      if next == Byte.equals then
        let behind ← forward after 1
        return (.punct longer, behind)
      else return (alone, after)

/-- A character that begins nothing. -/
def stray (c : Cursor) : Option (Lexeme.Kind × Cursor) := do
  let after ← skipChar c
  return (.invalidChar, after)

/-- Kind of the lexeme under the cursor, and the cursor behind it. -/
def recognize (c : Cursor) : Option (Lexeme.Kind × Cursor) := do
  let first ← read c 0
  if first == 0 then
    if ← isEnd c then return (.finish, c) else stray c
  else if Byte.isBlank first then
    let after ← skipWhile c Byte.isBlank
    return (.space, after)
  else if first == Byte.hash then
    let after ← skipToNewline c
    return (.comment, after)
  else if Byte.isWordStart first then
    let after ← skipWhile c Byte.isWordByte
    return (.word, after)
  else if Byte.isDigit first then number c
  else if first == Byte.quote then string c
  else if first == Byte.bang then sign c .loneBang (some .bangEq)
  else
    match Punct.ofByte? first with
    | some p => sign c (.punct p) p.withEquals?
    | none => stray c

/-- The lexeme under the cursor, and the cursor behind it. -/
def scan (c : Cursor) : Option (Lexeme × Cursor) := do
  let (kind, after) ← recognize c
  let length ← Position.sub? after.position c.position
  return ({ kind, length }, after)

end Cursor.Guarded

end BuildScript
