/-
Module: BuildScript.Text.Decimal
Layer: text
Purpose: Integers as texts.
Main exports: decimal
-/

namespace BuildScript.Text

/-- The number in decimal, with a minus sign in front of a negative one. -/
def decimal (value : Int64) : String :=
  if value < 0 then "-" ++ value.toInt.natAbs.repr else value.toInt.natAbs.repr

end BuildScript.Text
