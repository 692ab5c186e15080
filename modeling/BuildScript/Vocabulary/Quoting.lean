/-
Module: BuildScript.Vocabulary.Quoting
Layer: vocabulary
Purpose: The two ways to write a string: between single quotes, or between triples of them. There are no
  escapes, so the content of a string is exactly what stands between the quotes, and some contents
  can be written in neither way.
Main exports: Quoting, Quoting.mark, Quoting.markBytes, Quoting.fits, Quoting.forContent?
-/
import BuildScript.Source.Byte

namespace BuildScript

/-- How a string is delimited. -/
inductive Quoting where
  | single
  | triple
deriving DecidableEq, Repr, Inhabited

namespace Quoting

/-- What opens and closes a string. -/
def mark : Quoting → String
  | .single => "'"
  | .triple => "'''"

/-- The bytes of the mark. -/
def markBytes : Quoting → List UInt8
  | .single => [Byte.quote]
  | .triple => [Byte.quote, Byte.quote, Byte.quote]

/-- Whether some part of `bytes` is the closing mark. -/
def closes (q : Quoting) : (bytes : List UInt8) → Bool
  | [] => false
  | b :: rest => q.markBytes.isPrefixOf (b :: rest) || q.closes rest

/-- Whether content can be written in this way. It must not hold the closing mark, and in front of a
    triple mark it must not end in a quote, which would be read as part of the mark. -/
def fits (q : Quoting) (content : String) : Bool :=
  let bytes := content.toUTF8.data.toList
  !q.closes bytes && bytes.getLast? != some Byte.quote

/-- The way to write `content`: single quotes where they do, else triple ones. -/
def forContent? (content : String) : Option Quoting :=
  [Quoting.single, Quoting.triple].find? (·.fits content)

/-- The content between its marks. -/
def wrap (q : Quoting) (content : String) : String :=
  q.mark ++ content ++ q.mark

end Quoting

end BuildScript
