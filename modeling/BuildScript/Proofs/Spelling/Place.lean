/-
Module: BuildScript.Proofs.Spelling.Place
Layer: proofs about the spelling
Purpose: What it takes for pieces to be read as an expression. That depends on where they stand: a whole
  expression is followed by no operator, an operand only by looser ones, and the first operand of a level
  that groups to the left by anything that goes on with it. Parentheses make an expression fit any place.
Main exports: Piece.terminals, Leads, Tree.ReadFrom, ReadFrom.enclosed_operand, RowFrom.bracketed
-/
import BuildScript.Proofs.Grammar.Binding
import BuildScript.Proofs.Token.Spelt
import BuildScript.Tree.Spelling

namespace BuildScript

/-!
### Pieces as terminals
-/

namespace Piece

/-- What the grammar sees of pieces. -/
def terminals (pieces : List Piece) : List Terminal :=
  pieces.filterMap terminal?

@[simp]
theorem terminals_nil : terminals [] = [] :=
  rfl

/-- Pieces in a row have their terminals in a row. -/
@[simp]
theorem terminals_append (ps qs : List Piece) : terminals (ps ++ qs) = terminals ps ++ terminals qs :=
  List.filterMap_append

@[simp]
theorem terminals_space (ps : List Piece) : terminals (.space :: ps) = terminals ps :=
  rfl

/-- A piece that is a terminal comes first. -/
theorem terminals_cons {p : Piece} {t : Terminal} (terminal : p.terminal? = some t) (ps : List Piece) :
    terminals (p :: ps) = t :: terminals ps :=
  List.filterMap_cons_some terminal

@[simp]
theorem terminals_keyword (word : Keyword) (ps : List Piece) :
    terminals (.keyword word :: ps) = .keyword word :: terminals ps :=
  rfl

@[simp]
theorem terminals_sign (sign : Punct) (ps : List Piece) :
    terminals (.sign sign :: ps) = .punct sign :: terminals ps :=
  rfl

@[simp]
theorem terminals_name (text : String) (ps : List Piece) :
    terminals (.name text :: ps) = .name text :: terminals ps :=
  rfl

/-- Parentheses are two terminals more. -/
@[simp]
theorem terminals_parenthesized (ps : List Piece) :
    terminals (parenthesized ps) = .punct .leftParen :: (terminals ps ++ [.punct .rightParen]) := by
  simp [parenthesized, terminals, terminal?]

theorem separated_singleton (ps : List Piece) : separated [ps] = ps := by
  simp [separated, List.intercalate, List.intersperse]

/-- Groups are parted by commas, behind each of which is a space. -/
theorem separated_cons (ps qs : List Piece) (groups : List (List Piece)) :
    separated (ps :: qs :: groups) = ps ++ .sign .comma :: .space :: separated (qs :: groups) := by
  simp [separated, List.intercalate, List.intersperse]

end Piece

open Grammar

/-- How the pieces of an expression begin; with no operator if `tight`. -/
inductive Leads : (tight : Bool) → List Piece → Prop where
  | primary {tight p t ps} (terminal : p.terminal? = some t) (begins : beginsPrimary t = true) :
      Leads tight (p :: ps)
  | plus {ps} : Leads false (.sign .plus :: ps)
  | minus {ps} : Leads false (.sign .minus :: ps)
  | not {ps} : Leads false (.keyword .kwNot :: .space :: ps)

namespace Leads

variable {tight : Bool} {ps : List Piece}

/-- How pieces begin does not depend on what is added behind them. -/
theorem append (h : Leads tight ps) (qs : List Piece) : Leads tight (ps ++ qs) := by
  cases h with
  | primary terminal begins => exact .primary terminal begins
  | plus => exact .plus
  | minus => exact .minus
  | not => exact .not

/-- What begins with a primary begins like an expression. -/
theorem loose (h : Leads tight ps) : Leads false ps := by
  cases h with
  | primary terminal begins => exact .primary terminal begins
  | plus => exact .plus
  | minus => exact .minus
  | not => exact .not

/-- The first terminal of an expression. -/
theorem terminals (h : Leads tight ps) : ∃ t ts, Piece.terminals ps = t :: ts ∧
    (beginsPrimary t = true ∨ tight = false ∧ isPrefixOp t = true) := by
  cases h with
  | primary terminal begins => exact ⟨_, _, Piece.terminals_cons terminal _, .inl begins⟩
  | plus => exact ⟨_, _, rfl, .inr ⟨rfl, rfl⟩⟩
  | minus => exact ⟨_, _, rfl, .inr ⟨rfl, rfl⟩⟩
  | not => exact ⟨_, _, rfl, .inr ⟨rfl, rfl⟩⟩

/-- An expression that begins with a primary begins with no operator. -/
theorem not_prefixOp (h : Leads true ps) (rest : List Terminal) :
    Starts isPrefixOp (Piece.terminals ps ++ rest) = false := by
  obtain ⟨t, ts, same, begins | ⟨contra, -⟩⟩ := h.terminals
  · rw [same]
    cases t with
    | keyword word => cases word <;> first | rfl | cases begins
    | punct sign => cases sign <;> first | rfl | cases begins
    | _ => rfl
  · cases contra

/-- No expression begins with a bracket that closes a row. -/
theorem not_close (h : Leads tight ps) (row : Row) (rest : List Terminal) :
    Starts (· == .punct row.close) (Piece.terminals ps ++ rest) = false := by
  obtain ⟨t, ts, same, begins⟩ := h.terminals
  rw [same]
  have other : t ≠ .punct row.close := by
    rintro rfl
    cases row <;> simp [Row.close, beginsPrimary, isPrefixOp] at begins
  simpa [Starts] using other

end Leads

/-!
### Expressions in their places
-/

namespace Tree

/-- The pieces are read as the tree, wherever they stand. -/
structure ReadFrom (t : Tree) (ps : List Piece) : Prop where
  leads : Leads (t.strength == 10) ps
  /-- As an expression of its own. -/
  whole : ∀ r, Stops .assignment r → Derives expr (Piece.terminals ps ++ r) (some t) r
  /-- As an operand that binds tightly enough for its place. -/
  operand : ∀ l r, 3 ≤ l.strength → l.strength ≤ 10 → l.strength ≤ t.strength → Stops l r →
    Derives (.level l) (Piece.terminals ps ++ r) (some t) r
  /-- As the first operand of a level, with the others behind it. -/
  first : ∀ g r found o, (Level.grouping g).strength ≤ t.strength → Stops g.operand r →
    Derives (.operands g (some t)) r found o →
    Derives (.level (.grouping g)) (Piece.terminals ps ++ r) found o
  /-- As the beginning of a chain. -/
  chained : t.checkChain = .ok () → ∀ r t' o, Derives (.links t) r t' o →
    Derives (.level .chain) (Piece.terminals ps ++ r) (some t') o

namespace ReadFrom

variable {t : Tree} {ps : List Piece}

/-- An expression that is a chain by itself. -/
theorem of_chain (leads : Leads true ps) (strength : t.strength = 10)
    (chain : ∀ r, Stops .chain r → Derives (.level .chain) (Piece.terminals ps ++ r) (some t) r)
    (chained : t.checkChain = .ok () → ∀ r t' o, Derives (.links t) r t' o →
      Derives (.level .chain) (Piece.terminals ps ++ r) (some t') o) : t.ReadFrom ps := by
  have operand (l : Level) (r : List Terminal) (loose : l.strength ≤ 10) (stops : Stops l r) :
      Derives (.level l) (Piece.terminals ps ++ r) (some t) r := by
    have derived := chain r (stops.tighter loose)
    by_cases own : l.strength = 10
    · obtain rfl : l = .chain := Level.strength_injective own
      exact derived
    · exact derived.of_chain (leads.not_prefixOp r) (by omega) stops
  constructor
  · simpa [strength] using leads
  · exact fun r stops => operand .assignment r (by decide) stops
  · exact fun l r _ loose _ stops => operand l r loose stops
  · intro g r found o _ stops others
    exact .grouping (operand g.operand r (by cases g <;> decide) stops) others
  · exact chained

/-- An operator in front of its operand, or a comparison. -/
theorem of_level {l : Level} (leads : Leads false ps) (low : 3 ≤ l.strength) (high : l.strength ≤ 9)
    (strength : t.strength = l.strength) (other : ∀ g, l ≠ .grouping g)
    (noChain : t.checkChain ≠ .ok ())
    (own : ∀ r, Stops l r → Derives (.level l) (Piece.terminals ps ++ r) (some t) r) : t.ReadFrom ps := by
  have operand (l' : Level) (r : List Terminal) (loose : l'.strength ≤ l.strength) (stops : Stops l' r) :
      Derives (.level l') (Piece.terminals ps ++ r) (some t) r :=
    (own r (stops.tighter loose)).loosen high loose stops
  have beside : (t.strength == 10) = false := beq_eq_false_iff_ne.mpr (by omega)
  constructor
  · rwa [beside]
  · exact fun r stops => operand .assignment r (Nat.le_trans (by decide) low) stops
  · exact fun l' r _ _ loose stops => operand l' r (by omega) stops
  · intro g r found o loose stops others
    have apart : (Level.grouping g).strength ≠ l.strength := fun same =>
      other g (Level.strength_injective same.symm)
    have next := g.strength_operand
    exact .grouping (operand g.operand r (by omega) stops) others
  · exact fun chain => absurd chain noChain

/-- Operands of a level that groups them to the left. -/
theorem of_grouping {g : Grouping} (leads : Leads false ps)
    (strength : t.strength = (Level.grouping g).strength) (noChain : t.checkChain ≠ .ok ())
    (own : ∀ r found o, Stops g.operand r → Derives (.operands g (some t)) r found o →
      Derives (.level (.grouping g)) (Piece.terminals ps ++ r) found o) : t.ReadFrom ps := by
  obtain ⟨low, high⟩ := g.strength_bounds
  have operand (l : Level) (r : List Terminal) (loose : l.strength ≤ (Level.grouping g).strength)
      (stops : Stops l r) : Derives (.level l) (Piece.terminals ps ++ r) (some t) r := by
    have here : Stops (.grouping g) r := stops.tighter loose
    have derived := own r (some t) r (here.tighter (by rw [g.strength_operand]; omega))
      (.operandsEnd (here _ (Nat.le_refl _)))
    exact derived.loosen (by omega) loose stops
  have beside : (t.strength == 10) = false := beq_eq_false_iff_ne.mpr (by omega)
  constructor
  · rwa [beside]
  · exact fun r stops => operand .assignment r (Nat.le_trans (by decide) low) stops
  · exact fun l r _ _ loose stops => operand l r (by omega) stops
  · intro g' r found o loose stops others
    -- At its own level the operands behind go on with the chain of operators that `t` is.
    by_cases same : (Level.grouping g').strength = (Level.grouping g).strength
    · cases Level.strength_injective same
      exact own r found o stops others
    · have above := g'.strength_operand
      exact .grouping (operand g'.operand r (by omega) stops) others
  · exact fun chain => absurd chain noChain

/-- An assignment or a choice by condition, which is no operand without parentheses. -/
theorem of_loose (leads : Leads false ps) (strength : t.strength ≤ 2) (noChain : t.checkChain ≠ .ok ())
    (whole : ∀ r, Stops .assignment r → Derives expr (Piece.terminals ps ++ r) (some t) r) :
    t.ReadFrom ps := by
  have beside : (t.strength == 10) = false := beq_eq_false_iff_ne.mpr (by omega)
  constructor
  · rwa [beside]
  · exact whole
  · exact fun l r low _ loose => absurd loose (by omega)
  · intro g r found o loose
    have bounds := g.strength_bounds
    exact absurd loose (by omega)
  · exact fun chain => absurd chain noChain

/-- Parentheses make a chain of any expression that needs them. -/
theorem parenthesized (h : t.ReadFrom ps) (loose : t.strength < 10) (r : List Terminal) :
    Derives (.level .chain) (Piece.terminals (Piece.parenthesized ps) ++ r) (some t) r := by
  have inner := h.whole (.punct .rightParen :: r) (stops_of_endsOperand rfl _ _)
  have other : t.isName = false := by
    cases t with
    | name => simp [strength] at loose
    | _ => rfl
  refine .single ?_ other
  simpa using Derives.parenthesized inner

/-- An operand begins like an expression, with parentheses or without. -/
theorem leads_enclosed (h : t.ReadFrom ps) (least : Nat) : Leads false (enclosed least t ps) := by
  unfold enclosed
  split
  · exact .primary rfl rfl
  · exact h.leads.loose

/-- An operand in its place, with parentheses where it needs them. -/
theorem enclosed_operand (h : t.ReadFrom ps) {l : Level} (low : 3 ≤ l.strength) (high : l.strength ≤ 10)
    {r : List Terminal} (stops : Stops l r) :
    Derives (.level l) (Piece.terminals (enclosed l.strength t ps) ++ r) (some t) r := by
  unfold enclosed
  split
  · rename_i needs
    have chain := h.parenthesized (by omega) r
    by_cases own : l.strength = 10
    · obtain rfl : l = .chain := Level.strength_injective own
      exact chain
    · exact chain.of_chain (by simp [Starts, isPrefixOp]) (by omega) stops
  · exact h.operand l r low high (by omega) stops

/-- A first operand in its place, with parentheses where it needs them. -/
theorem enclosed_first (h : t.ReadFrom ps) {g : Grouping} {r o : List Terminal} {found : Option Tree}
    (stops : Stops g.operand r) (others : Derives (.operands g (some t)) r found o) :
    Derives (.level (.grouping g))
      (Piece.terminals (enclosed (Level.grouping g).strength t ps) ++ r) found o := by
  have bounds := g.strength_bounds
  have next := g.strength_operand
  unfold enclosed
  split
  · rename_i needs
    have chain := h.parenthesized (by omega) r
    exact .grouping (chain.of_chain (by simp [Starts, isPrefixOp]) (by omega) stops) others
  · exact h.first g r found o (by omega) stops others

end ReadFrom

end Tree

/-!
### Rows
-/

/-- The pieces are read as the element, in front of a comma or the bracket that ends the row. -/
structure ElementFrom (row : Row) (only : Bool) (ps : List Piece) (e : row.Element) : Prop where
  leads : Leads false ps
  derives : ∀ t r, t = .punct .comma ∨ t = .punct row.close →
    Derives (.element row only) (Piece.terminals ps ++ t :: r) e (t :: r)

/-- Groups of pieces are read as the elements of a row. -/
inductive RowFrom (row : Row) : (only : Bool) → List (List Piece) → List row.Element → Prop where
  | nil {only} : RowFrom row only [] []
  | cons {only ps e groups es} (first : ElementFrom row only ps e)
      (others : RowFrom row (row.isKeyword e) groups es) : RowFrom row only (ps :: groups) (e :: es)

namespace RowFrom

variable {row : Row} {only : Bool} {groups : List (List Piece)} {es : List row.Element}

/-- A row begins as its first group does. -/
theorem leads_separated {ps : List Piece} (leads : Leads false ps) (groups : List (List Piece)) :
    Leads false (Piece.separated (ps :: groups)) := by
  cases groups with
  | nil => rwa [Piece.separated_singleton]
  | cons qs groups =>
      rw [Piece.separated_cons]
      exact leads.append _

/-- Groups with commas in between are read as the row of what each of them is read as. -/
theorem derives (h : RowFrom row only groups es) (nonempty : es ≠ []) (r : List Terminal) :
    Derives (.row row only) (Piece.terminals (Piece.separated groups) ++ .punct row.close :: r) es
      (.punct row.close :: r) := by
  induction h with
  | nil => contradiction
  | @cons only ps e groups es first others ih =>
      cases others with
      | nil =>
          have last := first.derives (.punct row.close) r (.inr rfl)
          rw [Piece.separated_singleton]
          exact .last last (by cases row <;> rfl)
      | @cons _ qs e' groups es second others =>
          rw [Piece.separated_cons, Piece.terminals_append, List.append_assoc]
          refine .more (first.derives (.punct .comma) _ (.inl rfl)) ?_ (ih (by simp))
          exact (leads_separated second.leads groups).not_close row _

/-- In brackets a row may also be empty. -/
theorem bracketed (h : RowFrom row false groups es) (r : List Terminal) :
    Derives (.bracketed row) (Piece.terminals (Piece.separated groups) ++ .punct row.close :: r) es r := by
  cases h with
  | nil => exact .nothing
  | cons first others =>
      exact .something ((leads_separated first.leads _).not_close row _)
        (derives (.cons first others) (by simp) r)

end RowFrom

end BuildScript
