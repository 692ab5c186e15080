/-
Module: BuildScript.Proofs.Grammar.Binding
Layer: proofs about the grammar
Purpose: How far an operand reaches. What is derived at a tight level is also derived at a looser one, as
  long as the terminal behind it is no operator of a level in between.
Main exports: Level.strength, Stops, stops_of_isLooserOperator, Derives.loosen, Derives.of_chain
-/
import BuildScript.Proofs.Grammar.Derivation

namespace BuildScript.Grammar

/-!
### Levels in order
-/

/-- How tightly a level binds. -/
def Level.strength : Level → Nat
  | .assignment => 1
  | .conditional => 2
  | .grouping .or => 3
  | .grouping .and => 4
  | .comparing .equality => 5
  | .comparing .order => 6
  | .grouping .sum => 7
  | .grouping .product => 8
  | .unary => 9
  | .chain => 10
  | .primary => 11

/-- The level of the operands. -/
def Level.operand : Level → Level
  | .assignment => .conditional
  | .conditional => .grouping .or
  | .grouping g => g.operand
  | .comparing c => c.operand
  | .unary => .chain
  | .chain | .primary => .primary

/-- What goes on with an operand of the level that stands in front. -/
def Level.operator : Level → Terminal → Bool
  | .assignment => isAssignment
  | .conditional => (· == .punct .question)
  | .grouping g => fun t => (g.node? t).isSome
  | .comparing c => c.begins
  | .chain => beginsLink
  | .unary | .primary => fun _ => false

/-- No two levels bind equally tightly. -/
theorem Level.strength_injective {l l' : Level} (same : l.strength = l'.strength) : l = l' := by
  rcases l with _ | _ | ⟨_ | _ | _ | _⟩ | ⟨_ | _⟩ | _ | _ | _ <;>
    rcases l' with _ | _ | ⟨_ | _ | _ | _⟩ | ⟨_ | _⟩ | _ | _ | _ <;> first | rfl | cases same

theorem Level.strength_pos (l : Level) : 0 < l.strength := by
  rcases l with _ | _ | ⟨_ | _ | _ | _⟩ | ⟨_ | _⟩ | _ | _ | _ <;> decide

/-- Nothing binds more tightly than a primary. -/
theorem Level.strength_le (l : Level) : l.strength ≤ 11 := by
  rcases l with _ | _ | ⟨_ | _ | _ | _⟩ | ⟨_ | _⟩ | _ | _ | _ <;> decide

/-- The operands of a level bind more tightly than the level by one. -/
theorem Level.strength_operand {l : Level} (loose : l.strength ≤ 10) :
    l.operand.strength = l.strength + 1 := by
  rcases l with _ | _ | ⟨_ | _ | _ | _⟩ | ⟨_ | _⟩ | _ | _ | _
  case primary => simp [Level.strength] at loose
  all_goals rfl

theorem Grouping.strength_operand (g : Grouping) :
    g.operand.strength = (Level.grouping g).strength + 1 := by
  cases g <;> rfl

/-- The levels that group to the left lie between the conditional and the prefixes. -/
theorem Grouping.strength_bounds (g : Grouping) :
    3 ≤ (Level.grouping g).strength ∧ (Level.grouping g).strength ≤ 8 := by
  cases g <;> decide

/-!
### Ends of operands
-/

/-- In front of `rest` an operand at the level ends: no operator of the level or a tighter one comes
    next. -/
def Stops (l : Level) (rest : List Terminal) : Prop :=
  ∀ l' : Level, l.strength ≤ l'.strength → Starts l'.operator rest = false

/-- Where an operand of a level ends, one of any tighter level does too. -/
theorem Stops.tighter {l l' : Level} {rest : List Terminal} (stops : Stops l rest)
    (le : l.strength ≤ l'.strength) : Stops l' rest :=
  fun l'' le' => stops l'' (Nat.le_trans le le')

/-- At the end of the input every operand ends. -/
theorem stops_nil (l : Level) : Stops l [] :=
  fun _ _ => rfl

/-- The terminals that go on with no operand. -/
def endsOperand (t : Terminal) : Bool :=
  !isOperator t && !beginsLink t

/-- A terminal that goes on with no operand ends the operands of all levels. -/
theorem stops_of_endsOperand {t : Terminal} (ends : endsOperand t = true) (l : Level)
    (rest : List Terminal) : Stops l (t :: rest) := by
  simp only [endsOperand, isOperator, List.any_cons, List.any_nil, Bool.or_false, Bool.and_eq_true,
    Bool.not_eq_true', Bool.or_eq_false_iff] at ends
  obtain ⟨⟨⟨⟨⟨or, and, sum, product⟩, equality, order⟩, question⟩, assign⟩, link⟩ := ends
  intro l' _
  rcases l' with _ | _ | ⟨_ | _ | _ | _⟩ | ⟨_ | _⟩ | _ | _ | _ <;> simp_all [Starts, Level.operator]

/-- All the levels. -/
def Level.all : List Level :=
  [.assignment, .conditional, .grouping .or, .grouping .and, .comparing .equality, .comparing .order,
    .grouping .sum, .grouping .product, .unary, .chain, .primary]

theorem Level.mem_all (l : Level) : l ∈ Level.all := by
  rcases l with _ | _ | ⟨_ | _ | _ | _⟩ | ⟨_ | _⟩ | _ | _ | _ <;> simp [Level.all]

/-- Whether the terminal is an operator of a level looser than `l` only. -/
def isLooserOperator (l : Level) (t : Terminal) : Bool :=
  Level.all.all fun l' => decide (l'.strength < l.strength) || !l'.operator t

/-- An operator of a looser level ends the operands of a tighter one. -/
theorem stops_of_isLooserOperator {l : Level} {t : Terminal} (looser : isLooserOperator l t = true)
    (rest : List Terminal) : Stops l (t :: rest) := by
  intro l' tight
  have each := List.all_eq_true.mp looser l' l'.mem_all
  simp only [Bool.or_eq_true, decide_eq_true_eq, Bool.not_eq_true'] at each
  rcases each with below | other
  · omega
  · exact other

/-- An operand ends in front of an operator of its own level. -/
theorem Grouping.stops_operator {g : Grouping} {t : Terminal} {node : Tree → Tree → Tree}
    (operator : g.node? t = some node) (rest : List Terminal) : Stops g.operand (t :: rest) := by
  refine stops_of_isLooserOperator ?_ rest
  unfold Grouping.node? at operator
  split at operator
  case h_8 => cases operator
  all_goals decide

/-- A comparison ends its left operand. -/
theorem Comparing.stops_terminals (op : Comparison) (rest : List Terminal) :
    Stops (Comparing.of op).operand (op.terminals ++ rest) := by
  cases op <;> exact stops_of_isLooserOperator (by decide) _

/-- An assignment operator ends its target. -/
theorem stops_assignment (op : Assignment) (rest : List Terminal) :
    Stops .conditional (op.terminal :: rest) := by
  cases op <;> exact stops_of_isLooserOperator (by decide) _

/-!
### Loosening
-/

namespace Derives

variable {i o : List Terminal} {l l' : Level}

/-- An operand alone, from the level of operands. -/
theorem of_operand {found : Option Tree} (h : Derives (.level l.operand) i found o)
    (loose : l.strength ≤ 8) (ends : Starts l.operator o = false) : Derives (.level l) i found o := by
  cases l with
  | assignment => exact .unassigned h ends
  | conditional => exact .unconditional h ends
  | grouping g => exact .grouping h (.operandsEnd ends)
  | comparing c => exact .notCompared h ends
  | _ => simp [Level.strength] at loose

/-- What is derived at a level is derived at every looser one. -/
theorem loosen {found : Option Tree} (h : Derives (.level l) i found o) (tight : l.strength ≤ 9)
    (looser : l'.strength ≤ l.strength) (stops : Stops l' o) : Derives (.level l') i found o := by
  obtain ⟨steps, apart⟩ := Nat.exists_eq_add_of_le looser
  induction steps generalizing l' with
  | zero =>
      obtain rfl : l = l' := Level.strength_injective apart
      exact h
  | succ steps ih =>
      have next : l'.operand.strength = l'.strength + 1 := Level.strength_operand (by omega)
      have operand : Derives (.level l'.operand) i found o :=
        ih (by omega) (stops.tighter (by omega)) (by omega)
      exact of_operand operand (by omega) (stops l' (Nat.le_refl _))

/-- A chain is an operand at every level. -/
theorem of_chain {found : Option Tree} (h : Derives (.level .chain) i found o)
    (plain : Starts isPrefixOp i = false) (loose : l.strength ≤ 9) (stops : Stops l o) :
    Derives (.level l) i found o :=
  loosen (.noPrefix plain h) (Nat.le_refl 9) loose stops

end Derives

end BuildScript.Grammar
