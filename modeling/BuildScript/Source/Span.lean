/-
Module: BuildScript.Source.Span
Layer: source text
Purpose: Byte ranges of a source, and how diagnostics write them.
Main exports: Span, Span.text
-/

namespace BuildScript

/-- The half-open byte range from `start` up to `stop`. -/
structure Span where
  start : Nat
  stop : Nat
deriving DecidableEq, Repr, Inhabited

/-- Both ends with two dots between them. -/
def Span.text (s : Span) : String :=
  s.start.repr ++ ".." ++ s.stop.repr

end BuildScript
