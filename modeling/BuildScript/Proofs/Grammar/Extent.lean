/-
Module: BuildScript.Proofs.Grammar.Extent
Layer: proofs about the grammar
Purpose: How many terminals it takes to say a tree. An operand that binds looser than its place demands is
  reached through parentheses only, which are two terminals more, and nothing else in a program can be said
  in fewer terminals than its signs, words and literals are. So no reading of a tree is shorter than its
  extent.
Main exports: Tree.extent, Tree.within, Derives.extent_le, IsProgram.extent_le
-/
import BuildScript.Proofs.Grammar.Binding
import BuildScript.Tree.Spelling

namespace BuildScript

open Grammar

namespace Tree

/-!
### Extents
-/

/-- How many parentheses the tree needs as an operand that has to bind with strength `least`. -/
def parens (least : Nat) (t : Tree) : Nat :=
  if t.strength < least then 2 else 0

mutual
/-- The fewest terminals that the tree is read from. -/
def extent : Tree → Nat
  | .empty | .missing _ => 0
  | .jump _ | .name _ | .bool _ | .number _ | .string _ => 1
  | .sequence statements => extents statements
  | .conditional clauses otherwise => extents clauses + (clauses.length - 1) + extentElse otherwise + 2
  | .clause predicate body => predicate.extent + body.extent
  | .foreach vars iterable body =>
      extents vars + (vars.length - 1) + iterable.extent + body.extent + 3
  | .assignment _ a b | .keywordArg a b | .keyValue a b => a.extent + b.extent + 1
  | .unary _ operand => operand.extent + operand.parens 10 + 1
  | .logical op lhs rhs =>
      let least := strength (.logical op lhs rhs)
      lhs.extent + lhs.parens least + (rhs.extent + rhs.parens (least + 1)) + 1
  | .ternary condition yes no =>
      condition.extent + condition.parens 3 + yes.extent + no.extent + 2
  | .arithmetic op lhs rhs =>
      let least := strength (.arithmetic op lhs rhs)
      lhs.extent + lhs.parens least + (rhs.extent + rhs.parens (least + 1)) + 1
  | .relational op lhs rhs =>
      let least := strength (.relational op lhs rhs)
      lhs.extent + lhs.parens (least + 1) + (rhs.extent + rhs.parens (least + 1)) + op.terminals.length
  | .member object field => object.extent + object.parens 10 + field.extent + 1
  | .index target position => target.extent + target.parens 10 + position.extent + 2
  | .application callee args kwargs =>
      callee.extent + callee.parens 10 +
        (extents args + extents kwargs + (args.length + kwargs.length - 1)) + 2
  | .array parts | .dictionary parts => extents parts + (parts.length - 1) + 2

/-- The fewest terminals that the trees are read from, with nothing between them. -/
def extents : List Tree → Nat
  | [] => 0
  | t :: ts => t.extent + extents ts

/-- The fewest terminals of an `else` and its body. -/
def extentElse : Option Tree → Nat
  | none => 0
  | some body => body.extent + 1
end

/-- The fewest terminals that the tree is read from as an operand that has to bind with strength `least`. -/
def within (least : Nat) (t : Tree) : Nat :=
  t.extent + t.parens least

/-- The same for an operand that may be absent. -/
def withinOption (least : Nat) : Option Tree → Nat
  | none => 0
  | some t => t.within least

theorem within_of_le {least : Nat} {t : Tree} (tight : least ≤ t.strength) : t.within least = t.extent := by
  rw [within, parens, if_neg (by omega), Nat.add_zero]

/-- Parentheses are two terminals at the most. -/
theorem within_le (least : Nat) (t : Tree) : t.within least ≤ t.extent + 2 := by
  unfold within parens
  split <;> omega

/-- A place that demands more takes no fewer terminals. -/
theorem withinOption_mono {least more : Nat} (le : least ≤ more) (found : Option Tree) :
    withinOption least found ≤ withinOption more found := by
  cases found with
  | none => exact Nat.le_refl 0
  | some t =>
      simp only [withinOption, within, parens]
      split <;> split <;> omega

/-- What there is room for where operands bind tightly, there is room for where they bind loosely. -/
theorem withinOption_loosen {least more m n : Nat} (le : least ≤ more) {found : Option Tree}
    (room : m + withinOption more found ≤ n) : m + withinOption least found ≤ n :=
  Nat.le_trans (Nat.add_le_add_left (withinOption_mono le found) m) room

theorem strength_pos (t : Tree) : 1 ≤ t.strength := by
  unfold strength
  split <;> first | omega | (split <;> omega)

/-- A place for any expression. -/
@[simp]
theorem within_one (t : Tree) : t.within 1 = t.extent :=
  within_of_le t.strength_pos

/-- Nothing stands where an operand is absent. -/
theorem within_operandOf {least : Nat} (low : least ≤ 10) (lhs : Option Tree) :
    (operandOf lhs).within least = withinOption least lhs := by
  cases lhs with
  | none => exact within_of_le low
  | some t => rfl

@[simp]
theorem extents_nil : extents [] = 0 := by
  rw [extents]

@[simp]
theorem extents_cons (t : Tree) (ts : List Tree) : extents (t :: ts) = t.extent + extents ts := by
  rw [extents]

theorem extents_append (ts us : List Tree) : extents (ts ++ us) = extents ts + extents us := by
  induction ts with
  | nil => simp
  | cons t ts ih => simp [ih, Nat.add_assoc]

end Tree

namespace Grammar

open BuildScript.Tree

/-!
### Operators
-/

/-- How tightly a tree binds that is found at the level without parentheses. -/
def Level.least (l : Level) : Nat :=
  min l.strength 10

/-- An operator of a level that groups to the left adds itself to its operands. -/
theorem Grouping.within_node {g : Grouping} {t : Terminal} {node : Tree → Tree → Tree}
    (operator : g.node? t = some node) (lhs rhs : Tree) :
    (node lhs rhs).within (Level.grouping g).strength =
      lhs.within (Level.grouping g).strength + rhs.within (Grouping.operand g).least + 1 := by
  unfold Grouping.node? at operator
  split at operator <;> cases operator <;> rfl

/-- A comparison adds its own terminals to its operands. -/
theorem Comparing.within_relational (op : Comparison) (lhs rhs : Tree) :
    (Tree.relational op lhs rhs).within (Level.comparing (Comparing.of op)).least =
      lhs.within (Comparing.of op).operand.least + rhs.within (Comparing.of op).operand.least +
        op.terminals.length := by
  cases op <;> rfl

/-!
### Rows
-/

/-- The fewest terminals of an element. -/
def Row.extent : (row : Row) → row.Element → Nat
  | .items, t | .entries, t => t.extent
  | .arguments, .positional t | .arguments, .keyword t => t.extent

/-- The fewest terminals of the elements, with nothing between them. -/
def Row.extents (row : Row) : List row.Element → Nat
  | [] => 0
  | e :: es => row.extent e + row.extents es

/-- The elements of other rows are trees. -/
theorem Row.extents_trees (ts : List Tree) :
    Row.items.extents ts = Tree.extents ts ∧ Row.entries.extents ts = Tree.extents ts := by
  induction ts with
  | nil => exact ⟨extents_nil.symm, extents_nil.symm⟩
  | cons t ts ih => simp [extents, extent, ih]

/-- The elements of an argument row are the positional and the keyword arguments. -/
theorem Row.extents_arguments (all : List (Argument Tree)) : Row.arguments.extents all =
    Tree.extents (all.filterMap Argument.positional?) + Tree.extents (all.filterMap Argument.keyword?) ∧
      all.length = (all.filterMap Argument.positional?).length + (all.filterMap Argument.keyword?).length := by
  induction all with
  | nil => simp [extents]
  | cons arg others ih =>
      cases arg with
      | positional t =>
          simp only [List.filterMap_cons, Argument.positional?, Argument.keyword?, extents, extent,
            extents_cons, List.length_cons, ih]
          omega
      | keyword t =>
          simp only [List.filterMap_cons, Argument.positional?, Argument.keyword?, extents, extent,
            extents_cons, List.length_cons, ih]
          omega

/-!
### Phrases
-/

/-- The fewest terminals of a phrase that is read as `found`, with what stands in front of it. -/
def Phrase.extent : (phrase : Phrase) → phrase.Found → Nat
  | .level l, found => withinOption l.least found
  | .operands g _, found => withinOption (Level.grouping g).strength found
  | .links _, t => t.within 10
  | .element r _, e => r.extent e
  | .row r _, es => r.extents es + (es.length - 1)
  | .bracketed r, es => r.extents es + (es.length - 1) + 1
  | .statement, found => withinOption 1 found
  | .body, t => t.extent
  | .statements, ts => extents ts
  | .clauses, ts | .loopVariables, ts => extents ts + (ts.length - 1)

/-- How much of that stands in front of the phrase. -/
def Phrase.given : Phrase → Nat
  | .operands g lhs => withinOption (Level.grouping g).strength lhs
  | .links object => object.within 10
  | _ => 0

namespace Derives

variable {phrase : Phrase} {found : phrase.Found} {i o : List Terminal}

/-- No derivation takes fewer terminals than what it finds is said in. -/
theorem extent_le (h : Derives phrase i found o) :
    o.length + phrase.extent found ≤ i.length + phrase.given := by
  induction h with
  | @parenthesized i o t _ inner =>
      have enclosed : o.length + 1 + t.within 1 ≤ i.length := inner
      have parens := t.within_le 10
      rw [within_one] at enclosed
      change o.length + t.within 10 ≤ i.length + 1
      omega
  | name | truth | falsehood | number | string => exact Nat.le_refl _
  | @array i o items _ all =>
      have row : o.length + (Row.items.extents items + (items.length - 1) + 1) ≤ i.length := all
      change o.length + (Tree.extents items + (items.length - 1) + 2) ≤ i.length + 1
      rw [(Row.extents_trees items).1] at row
      omega
  | @dictionary i o entries _ all =>
      have row : o.length + (Row.entries.extents entries + (entries.length - 1) + 1) ≤ i.length := all
      change o.length + (Tree.extents entries + (entries.length - 1) + 2) ≤ i.length + 1
      rw [(Row.extents_trees entries).2] at row
      omega
  | @member object i m o text t _ _ field links =>
      have field : m.length + 1 ≤ i.length := field
      have links : o.length + t.within 10 ≤ m.length + (object.within 10 + 1 + 1) := links
      change o.length + t.within 10 ≤ i.length + 1 + object.within 10
      omega
  | @index object i m o position t _ _ inner links =>
      have inner : m.length + 1 + position.within 1 ≤ i.length := inner
      have links : o.length + t.within 10 ≤ m.length + (object.within 10 + position.extent + 2) := links
      change o.length + t.within 10 ≤ i.length + 1 + object.within 10
      rw [within_one] at inner
      omega
  | @call object i m o all t _ _ args links =>
      obtain ⟨extents, length⟩ := Row.extents_arguments all
      have row : m.length + (Row.arguments.extents all + (all.length - 1) + 1) ≤ i.length := args
      have link : o.length + t.within 10 ≤ m.length +
        (object.within 10 + (Tree.extents (all.filterMap Argument.positional?) +
          Tree.extents (all.filterMap Argument.keyword?) + ((all.filterMap Argument.positional?).length +
          (all.filterMap Argument.keyword?).length - 1)) + 2) := links
      change o.length + t.within 10 ≤ i.length + 1 + object.within 10
      rw [← extents, ← length] at link
      omega
  | noPrefix _ _ operand | unconditional _ _ operand | unassigned _ _ operand =>
      exact withinOption_loosen (by decide) operand
  | @notCompared c _ _ _ _ _ operand => exact withinOption_loosen (by cases c <;> decide) operand
  | @prefixed op i o t _ operand => exact Nat.succ_le_succ operand
  | @grouping g i m o first found _ _ operand others =>
      have operand : m.length + withinOption (Level.grouping g).strength first ≤ i.length :=
        withinOption_loosen (by cases g <;> decide) operand
      have others : o.length + withinOption (Level.grouping g).strength found ≤
        m.length + withinOption (Level.grouping g).strength first := others
      have least : (Level.grouping g).least = (Level.grouping g).strength := by cases g <;> rfl
      change o.length + withinOption (Level.grouping g).least found ≤ i.length
      rw [least]
      omega
  | @operand g lhs t node i m o rhs found operator _ _ right others =>
      have right : m.length + rhs.within (Grouping.operand g).least ≤ i.length := right
      have others : o.length + withinOption (Level.grouping g).strength found ≤
        m.length + (node (operandOf lhs) rhs).within (Level.grouping g).strength := others
      rw [Grouping.within_node operator, within_operandOf (by cases g <;> decide)] at others
      change o.length + withinOption (Level.grouping g).strength found ≤
        i.length + 1 + withinOption (Level.grouping g).strength lhs
      omega
  | @compared c op i m o lhs rhs its_level _ _ left right =>
      subst its_level
      have left : (op.terminals ++ m).length + withinOption (Comparing.of op).operand.least lhs ≤ i.length := left
      have right : o.length + rhs.within (Comparing.of op).operand.least ≤ m.length := right
      change o.length + (Tree.relational op (operandOf lhs) rhs).within (Level.comparing (Comparing.of op)).least ≤
        i.length
      rw [Comparing.within_relational, within_operandOf (by cases op <;> decide)]
      rw [List.length_append] at left
      omega
  | @conditional i m n o condition yes no _ _ _ left middle right =>
      have left : m.length + 1 + withinOption 3 condition ≤ i.length := left
      have middle : n.length + 1 + yes.within 1 ≤ m.length := middle
      have right : o.length + no.within 1 ≤ n.length := right
      change o.length + ((operandOf condition).within 3 + yes.extent + no.extent + 2) ≤ i.length
      rw [within_operandOf (by decide)]
      rw [within_one] at middle right
      omega
  | @assigned op i m o text value _ _ target right =>
      have target : m.length + 1 + 1 ≤ i.length := target
      have right : o.length + value.within 1 ≤ m.length := right
      change o.length + (1 + value.extent + 1) ≤ i.length
      rw [within_one] at right
      omega
  | _ =>
      simp_all [Phrase.extent, Phrase.given, Level.least, Level.strength, withinOption, Tree.extent,
        Row.extents, Row.extent, Tree.extentElse] <;> omega

end Derives

/-- No program is said in fewer terminals than its extent. -/
theorem IsProgram.extent_le {input : List Terminal} {t : Tree} (program : IsProgram input t) :
    t.extent ≤ input.length := by
  have derived : 0 + t.extent ≤ input.length + 0 := Derives.extent_le program
  omega

end Grammar

end BuildScript
