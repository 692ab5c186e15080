/-
Module: BuildScript.Source.Buffer
Layer: source text
Purpose: A source as the bytes of its UTF-8 form, followed by zero bytes. The zeros are the sentinel on
  which runs of bytes stop, and they let a reader look two bytes past the last one. A zero inside the
  source is told apart from the sentinel by its position alone.
Main exports: Buffer, Buffer.ofSource, Buffer.byteAt, Buffer.byteAt?, Buffer.runEnd, Buffer.find?,
  Buffer.text
-/

namespace BuildScript

/-- Source bytes with zeros behind them. -/
structure Buffer where
  /-- The source bytes, then the zeros. -/
  bytes : Array UInt8
  /-- How many of the bytes are source. -/
  length : Nat
deriving DecidableEq, Repr, Inhabited

namespace Buffer

/-- Buffers are filled up to a multiple of this size. -/
def blockSize : Nat := 64

/-- Fewest zeros behind the source: the sentinel and two bytes to look ahead. -/
def margin : Nat := 3

/-- Size of the buffer for a source of `n` bytes. -/
def paddedSize (n : Nat) : Nat :=
  (n + margin + (blockSize - 1)) / blockSize * blockSize

/-- The buffer that holds all of `source`. Where positions are kept in 32 bits, a source of more than
    4294967295 bytes is cut off at that length. Positions have no largest one here and nothing is cut off, so
    what is said of buffers is said of sources up to that length. -/
def ofSource (source : String) : Buffer :=
  let content := source.toUTF8.data
  { bytes := content ++ Array.replicate (paddedSize content.size - content.size) 0
    length := content.size }

/-- The byte at `i`; zero from the end of the source on. -/
def byteAt (buffer : Buffer) (i : Nat) : UInt8 :=
  buffer.bytes.getD i 0

/-- The source byte at `i`, if `i` is inside the source. -/
def byteAt? (buffer : Buffer) (i : Nat) : Option UInt8 :=
  if i < buffer.length then some (buffer.byteAt i) else none

/-- Where the run of `inRun` bytes from `i` ends, when `steps` bytes may be looked at. -/
def runEnd (buffer : Buffer) (inRun : UInt8 → Bool) : (steps : Nat) → (i : Nat) → Nat
  | 0, i => i
  | steps + 1, i => if inRun (buffer.byteAt i) then buffer.runEnd inRun steps (i + 1) else i

/-- Whether the source holds `needle` at `i`. Nothing is found past the end of the source. -/
def holdsAt (buffer : Buffer) : (needle : List UInt8) → (i : Nat) → Bool
  | [], i => i ≤ buffer.length
  | b :: rest, i => i < buffer.length && buffer.byteAt i == b && buffer.holdsAt rest (i + 1)

/-- The first place among `i`, `i + 1`, …, `i + steps` where the source holds `needle`. -/
def findWithin (buffer : Buffer) (needle : List UInt8) : (steps : Nat) → (i : Nat) → Option Nat
  | 0, i => if buffer.holdsAt needle i then some i else none
  | steps + 1, i =>
      if buffer.holdsAt needle i then some i else buffer.findWithin needle steps (i + 1)

/-- The first place from `i` on where the source holds `needle`. -/
def find? (buffer : Buffer) (needle : List UInt8) (i : Nat) : Option Nat :=
  buffer.findWithin needle (buffer.length - i) i

/-- The source text from `start` up to `stop`, empty if that is no sequence of whole characters. -/
def text (buffer : Buffer) (start stop : Nat) : String :=
  (String.fromUTF8? ⟨buffer.bytes.extract start stop⟩).getD ""

end Buffer

end BuildScript
