/-
Module: BuildScript.Proofs.Tree.Part
Layer: proofs about trees
Purpose: The parts of a construct and what each of them is there for. A role says which constructs may play
  it, so the shape of a whole tree is told by looking at one construct and its parts at a time.
Main exports: Tree.Role, Tree.roles, Tree.parts, Tree.OccursIn, Tree.Throughout, Tree.inductionOnParts
-/
import BuildScript.Tree.Basic

namespace BuildScript.Tree

/-- What a part of a construct is there for. -/
inductive Role where
  /-- What is done by a program, in a clause, in an `else` or in a loop. -/
  | body
  | statement
  | clause
  | expression
  /-- What stands on the left of an operator that is read without it, too. -/
  | leftOperand
  /-- What a member, an index or arguments are put behind. -/
  | chained
  | name
  | keywordArg
  /-- A key with its value. -/
  | entry
deriving DecidableEq, Repr, Inhabited

/-- The parts of a construct in the order of the source, each with its role. A sign or `not` with nothing on
    its left stands in front of its operand, so the left of `+`, `-` and `not in` is a role of its own. -/
def roles : Tree → List (Role × Tree)
  | .empty | .jump _ | .name _ | .bool _ | .number _ | .string _ | .missing _ => []
  | .sequence statements => statements.map (.statement, ·)
  | .assignment _ target value => [(.name, target), (.expression, value)]
  | .conditional clauses otherwise =>
      clauses.map (.clause, ·) ++ otherwise.toList.map (.body, ·)
  | .clause predicate body => [(.expression, predicate), (.body, body)]
  | .foreach vars iterable body => vars.map (.name, ·) ++ [(.expression, iterable), (.body, body)]
  | .unary _ operand => [(.expression, operand)]
  | .logical _ lhs rhs => [(.leftOperand, lhs), (.expression, rhs)]
  | .ternary condition yes no => [(.leftOperand, condition), (.expression, yes), (.expression, no)]
  | .arithmetic op lhs rhs =>
      [(if op.isMultiplicative then .leftOperand else .expression, lhs), (.expression, rhs)]
  | .relational op lhs rhs =>
      [(if op = .notMember then .expression else .leftOperand, lhs), (.expression, rhs)]
  | .member object field => [(.chained, object), (.name, field)]
  | .index target position => [(.chained, target), (.expression, position)]
  | .application callee args kwargs =>
      (.chained, callee) :: args.map (.expression, ·) ++ kwargs.map (.keywordArg, ·)
  | .keywordArg key value => [(.name, key), (.expression, value)]
  | .array items => items.map (.expression, ·)
  | .dictionary entries => entries.map (.entry, ·)
  | .keyValue key value => [(.expression, key), (.expression, value)]

/-- The parts of a construct. -/
def parts (t : Tree) : List Tree :=
  t.roles.map Prod.snd

/-- The tree stands somewhere in another: it is the other, or it stands in a part of it. -/
inductive OccursIn (x : Tree) : Tree → Prop where
  | self : OccursIn x x
  | inside {t part} (member : part ∈ t.parts) (occurs : OccursIn x part) : OccursIn x t

/-- Whatever stands in the tree has the property. -/
def Throughout (p : Tree → Prop) (t : Tree) : Prop :=
  ∀ x : Tree, x.OccursIn t → p x

/-- What holds throughout a tree holds of it and throughout its parts. -/
theorem throughout_iff {p : Tree → Prop} {t : Tree} :
    t.Throughout p ↔ p t ∧ ∀ part ∈ t.parts, part.Throughout p := by
  constructor
  · intro h
    exact ⟨h t .self, fun part member x occurs => h x (.inside member occurs)⟩
  · rintro ⟨here, below⟩ x occurs
    cases occurs with
    | self => exact here
    | inside member occurs => exact below _ member x occurs

/-- Parts are told by their roles. -/
theorem forall_mem_parts {p : Tree → Prop} {t : Tree} :
    (∀ part ∈ t.parts, p part) ↔ ∀ r ∈ t.roles, p r.2 :=
  List.forall_mem_map

/-!
### Induction on parts
-/

theorem sizes_append (ts us : List Tree) : sizes (ts ++ us) = sizes ts + sizes us := by
  induction ts with
  | nil => simp [sizes]
  | cons t ts ih => simp [sizes, ih, Nat.add_assoc]

theorem size_le_sizes {t : Tree} {ts : List Tree} (member : t ∈ ts) : t.size ≤ sizes ts := by
  induction ts with
  | nil => cases member
  | cons u us ih =>
      rw [sizes]
      rcases List.mem_cons.mp member with rfl | member
      · exact Nat.le_add_right _ _
      · exact Nat.le_trans (ih member) (Nat.le_add_left _ _)

/-- A construct is one more than its parts. -/
theorem size_eq_sizes_parts (t : Tree) : t.size = sizes t.parts + 1 := by
  cases t with
  | conditional clauses otherwise =>
      cases otherwise <;>
        simp [size, parts, roles, sizes_append, sizes, sizeOption, Function.comp_def]
  | _ =>
      simp [size, parts, roles, sizes_append, sizes, Function.comp_def, Nat.add_assoc]

/-- Parts are smaller than what they are parts of. -/
theorem size_lt_of_mem_parts {t part : Tree} (member : part ∈ t.parts) : part.size < t.size := by
  have le := size_le_sizes member
  rw [size_eq_sizes_parts t]
  omega

/-- What a tree has as soon as its parts have it, every tree has. -/
theorem inductionOnParts {p : Tree → Prop} (step : ∀ t : Tree, (∀ part ∈ t.parts, p part) → p t)
    (t : Tree) : p t := by
  induction size : t.size using Nat.strongRecOn generalizing t with
  | ind n ih =>
      subst size
      exact step t fun part member => ih part.size (size_lt_of_mem_parts member) part rfl

end BuildScript.Tree
