/-
Module: BuildScript.Proofs.Grammar.Opening
Layer: proofs about the grammar
Purpose: What a phrase can begin with. Whether a phrase of a level is found is decided by the first terminal
  alone: an operand of the level, a prefix operator or an operator whose left operand may be absent. So
  where a phrase is found absent, the terminal that comes first begins none, whatever follows it.
Main exports: Level.begins, Derives.begun, Derives.none_of_starts, Barred, Derives.barred
-/
import BuildScript.Proofs.Grammar.Binding
import BuildScript.Proofs.Tree.Schema

namespace BuildScript.Grammar

/-- What a phrase of the level begins with when it is none of the operands of the level. An assignment is in
    need of its target. -/
def Level.opens : Level → Terminal → Bool
  | .assignment, _ | .chain, _ => false
  | .conditional, t => t == .punct .question
  | .grouping g, t => (g.node? t).isSome
  | .comparing c, t => c.begins t
  | .unary, t => isPrefixOp t
  | .primary, t => beginsPrimary t

/-- The terminals that a phrase of the level can begin with. -/
def Level.begins (l : Level) (t : Terminal) : Bool :=
  Level.all.any fun l' => decide (l.strength ≤ l'.strength) && l'.opens t

/-- A phrase of a level begins like an operand or with what the level adds. -/
theorem Level.begins_eq {l : Level} (loose : l.strength ≤ 10) (t : Terminal) :
    l.begins t = (l.operand.begins t || l.opens t) := by
  rcases l with _ | _ | ⟨_ | _ | _ | _⟩ | ⟨_ | _⟩ | _ | _ | _
  case primary => simp [Level.strength] at loose
  all_goals
    simp only [begins, all, List.any_cons, List.any_nil, strength, operand, Grouping.operand,
      Comparing.operand, opens]
    simp [Bool.or_comm, Bool.or_assoc, Bool.or_left_comm]

theorem Level.begins_primary (t : Terminal) : Level.begins .primary t = beginsPrimary t := by
  simp [begins, all, strength, opens]

/-- Terminals of two classes are told apart from others as those of either class. -/
theorem starts_or {p q r : Terminal → Bool} (same : ∀ t, p t = (q t || r t)) (i : List Terminal) :
    Starts p i = (Starts q i || Starts r i) := by
  cases i with
  | nil => rfl
  | cons t rest => exact same t

/-- A phrase of a level begins with an operand, or with an operator that may do without one. -/
theorem Level.starts_begins {l : Level} (loose : l.strength ≤ 10) (i : List Terminal) :
    Starts l.begins i = (Starts l.operand.begins i || Starts l.opens i) :=
  starts_or (Level.begins_eq loose) i

/-- The terminals that a statement can begin with. -/
def opensStatement (t : Terminal) : Bool :=
  beginsStatement t || Level.begins .assignment t

/-- The first terminal tells whether a phrase that may be absent is there. -/
def Phrase.Begun : (phrase : Phrase) → (input : List Terminal) → phrase.Found → Prop
  | .level l, i, found => Starts l.begins i = found.isSome
  | .operands g lhs, i, found =>
      found.isSome = (lhs.isSome || Starts (fun t => (g.node? t).isSome) i)
  | .statement, i, found => Starts opensStatement i = found.isSome
  | _, _, _ => True

namespace Derives

variable {i o m : List Terminal} {l : Level}

/-- Where no phrase of a level is found, nothing has been taken. -/
theorem eq_of_none (h : Derives (.level l) i none o) : o = i := by
  have absent := h.absent_found
  cases l with
  | chain | primary => exact absent rfl
  | _ => exact (absent rfl).1

/-- A phrase that adds to an operand is there if the operand is, or if it opens without one. -/
theorem begun_of_operand {first : Option Tree} (h : Derives (.level l.operand) i first m)
    (operand : Starts l.operand.begins i = first.isSome) (loose : l.strength ≤ 10) :
    Starts l.begins i = (first.isSome || Starts l.opens m) := by
  rw [Level.starts_begins loose, operand]
  cases first with
  | none => rw [h.eq_of_none]
  | some t => rfl

/-- A phrase that is an operand alone begins as the operand does. -/
theorem begun_of_alone {first : Option Tree} (h : Derives (.level l.operand) i first m)
    (operand : Starts l.operand.begins i = first.isSome) (loose : l.strength ≤ 10)
    (ends : Starts l.opens m = false) : Starts l.begins i = first.isSome := by
  rw [begun_of_operand h operand loose, ends, Bool.or_false]

/-- A phrase whose operator comes at once begins with it. -/
theorem begun_of_opened {first : Option Tree} (h : Derives (.level l.operand) i first m)
    (operand : Starts l.operand.begins i = first.isSome) (loose : l.strength ≤ 10)
    (opened : Starts l.opens m = true) : Starts l.begins i = true := by
  rw [begun_of_operand h operand loose, opened, Bool.or_true]

/-- Whether a phrase has been found shows at its first terminal. -/
theorem begun {phrase : Phrase} {found : phrase.Found} (h : Derives phrase i found o) :
    phrase.Begun i found := by
  have never (m : List Terminal) : Starts (fun _ => false) m = false := by cases m <;> rfl
  induction h with
  | absent other => exact (congrArg (Starts · _) (funext Level.begins_primary)).trans other
  | parenthesized | name | truth | falsehood | number | string | array | dictionary => rfl
  | noChain first ih => exact begun_of_alone (l := .chain) first ih (by decide) (never _)
  | single first _ ih => exact begun_of_alone (l := .chain) first ih (by decide) (never _)
  | chain first _ ih _ =>
      have opened := begun_of_alone (l := .chain) first ih (by decide) (never _)
      exact opened
  | @noPrefix i o found plain operand ih =>
      have opened := Level.starts_begins (l := .unary) (by decide) i
      exact opened.trans ((congrArg₂ (· || ·) ih plain).trans (Bool.or_false _))
  | @prefixed op i =>
      have opened := Level.starts_begins (l := .unary) (by decide) (op.terminal :: i)
      have sign : Starts (Level.opens .unary) (op.terminal :: i) = true := by cases op <;> rfl
      exact opened.trans ((congrArg (_ || ·) sign).trans (Bool.or_true _))
  | @grouping g _ _ _ _ _ operand _ operand_ih others_ih =>
      have opened := begun_of_operand (l := .grouping g) operand operand_ih (by cases g <;> decide)
      exact opened.trans others_ih.symm
  | operandsEnd ends => exact ((congrArg (_ || ·) ends).trans (Bool.or_false _)).symm
  | @operand g lhs t node i m o rhs found operator _ _ _ others_ih =>
      have there : found.isSome = true := others_ih
      have comes : Starts (fun t => (g.node? t).isSome) (t :: i) = true := by simp [Starts, operator]
      exact there.trans ((congrArg (_ || ·) comes).trans (Bool.or_true _)).symm
  | @notCompared c _ _ _ operand ends ih =>
      exact begun_of_alone (l := .comparing c) operand ih (by cases c <;> decide) ends
  | @compared c op _ m _ _ _ its_level left _ left_ih _ =>
      have comes : Starts c.begins (op.terminals ++ m) = true := by
        subst its_level
        cases op <;> rfl
      exact begun_of_opened (l := .comparing c) left left_ih (by cases c <;> decide) comes
  | unconditional operand ends ih => exact begun_of_alone (l := .conditional) operand ih (by decide) ends
  | conditional left _ _ left_ih _ _ =>
      exact begun_of_opened (l := .conditional) left left_ih (by decide) rfl
  | unassigned operand _ ih => exact begun_of_alone (l := .assignment) operand ih (by decide) (never _)
  | assigned target _ target_ih _ =>
      have opened := begun_of_alone (l := .assignment) target target_ih (by decide) (never _)
      exact opened
  | @expression i _ _ other _ ih =>
      have opened : Starts opensStatement i = _ := starts_or (fun _ => rfl) i
      exact opened.trans ((congrArg₂ (· || ·) other ih).trans (Bool.false_or _))
  | choice | choiceElse | loop | stop | skip => rfl
  | _ => trivial

/-- In front of a terminal that a level does not begin with, nothing is found at the level. -/
theorem none_of_starts (other : Starts l.begins i = false)
    (plain : l = .assignment → Starts isAssignment i = false) : Derives (.level l) i none i := by
  -- From the tightest level outwards: each level begins like its operand or with what it opens with.
  induction tightness : 11 - l.strength generalizing l with
  | zero =>
      have tightest : l.strength = 11 := by
        have bounded := l.strength_le
        omega
      obtain rfl : l = .primary := Level.strength_injective tightest
      exact .absent ((congrArg (Starts · i) (funext Level.begins_primary)).symm.trans other)
  | succ tightness ih =>
      have loose : l.strength ≤ 10 := by omega
      have tighter := Level.strength_operand loose
      rw [Level.starts_begins loose, Bool.or_eq_false_iff] at other
      have operand : Derives (.level l.operand) i none i := by
        refine ih other.1 (fun same => ?_) (by omega)
        rw [same] at tighter
        have loosest : Level.assignment.strength = 1 := rfl
        have positive := l.strength_pos
        omega
      cases l with
      | assignment => exact .unassigned operand (plain rfl)
      | conditional => exact .unconditional operand other.2
      | grouping g => exact .grouping operand (.operandsEnd other.2)
      | comparing c => exact .notCompared operand other.2
      | unary => exact .noPrefix other.2 operand
      | chain => exact .noChain operand
      | primary => exact (Nat.not_succ_le_self 10 loose).elim

end Derives

/-!
### Terminals that begin no phrase
-/

/-- Whatever follows the first of the terminals, they do not begin with a phrase of the level. -/
def Barred (l : Level) (rest : List Terminal) : Prop :=
  ∀ i t o, i.head? = rest.head? → ¬ Derives (.level l) i (some t) o

/-- Whatever follows the first of the terminals, they do not begin with a statement. -/
def BarredStatement (rest : List Terminal) : Prop :=
  ∀ i t o, i.head? = rest.head? → ¬ Derives .statement i (some t) o

/-- What is told by the first terminal does not depend on those behind it. -/
theorem starts_congr {p : Terminal → Bool} {i j : List Terminal} (same : i.head? = j.head?) :
    Starts p i = Starts p j := by
  cases i <;> cases j <;> simp_all [Starts]

namespace Derives

variable {i o : List Terminal} {l : Level}

/-- What is found absent cannot be there, whatever else came behind the terminal that tells so. -/
theorem barred (h : Derives (.level l) i none o) : Barred l i := by
  intro j t rest same there
  have absent : Starts l.begins i = false := h.begun
  have present : Starts l.begins j = true := there.begun
  rw [starts_congr same, absent] at present
  cases present

/-- Where no statement is found, none begins, whatever is behind. -/
theorem barredStatement (h : Derives .statement i none o) : BarredStatement i := by
  intro j t rest same there
  have absent : Starts opensStatement i = false := h.begun
  have present : Starts opensStatement j = true := there.begun
  rw [starts_congr same, absent] at present
  cases present

end Derives

end BuildScript.Grammar
