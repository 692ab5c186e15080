/-
Module: BuildScript.Tree.Operator
Layer: trees
Purpose: The operators that trees carry. Each family belongs to one construct, so no construct can carry an
  operator of another.
Main exports: Assignment, Jump, PrefixOp, Connective, Arithmetic, Comparison
-/

namespace BuildScript

/-- Assignment and its five compound forms. -/
inductive Assignment where
  | assign
  | add
  | sub
  | mul
  | div
  | mod
deriving DecidableEq, Repr, Inhabited

/-- What stands in front of the equals sign. -/
def Assignment.stem : Assignment → String
  | .assign => ""
  | .add => "+"
  | .sub => "-"
  | .mul => "*"
  | .div => "/"
  | .mod => "%"

/-- A statement about the loop it stands in: stop the loop, or skip the rest of this round. -/
inductive Jump where
  | stop
  | skip
deriving DecidableEq, Repr, Inhabited

/-- Operators in front of their operand. -/
inductive PrefixOp where
  | not
  | plus
  | minus
deriving DecidableEq, Repr, Inhabited

/-- Conjunction and disjunction. -/
inductive Connective where
  | and
  | or
deriving DecidableEq, Repr, Inhabited

/-- Arithmetic with two operands. -/
inductive Arithmetic where
  | add
  | sub
  | mul
  | div
  | mod
deriving DecidableEq, Repr, Inhabited

/-- Products, quotients and remainders bind tighter than sums and differences. -/
def Arithmetic.isMultiplicative : Arithmetic → Bool
  | .mul | .div | .mod => true
  | .add | .sub => false

/-- Equality, order and membership. -/
inductive Comparison where
  | eq
  | ne
  | lt
  | le
  | gt
  | ge
  | member
  | notMember
deriving DecidableEq, Repr, Inhabited

/-- Equality and inequality bind looser than the other comparisons. -/
def Comparison.isEquality : Comparison → Bool
  | .eq | .ne => true
  | .lt | .le | .gt | .ge | .member | .notMember => false

end BuildScript
