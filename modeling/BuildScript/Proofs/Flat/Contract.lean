/-
Module: BuildScript.Proofs.Flat.Contract
Layer: proofs about flat readings
Purpose: What the productions promise each other, whether they find trees or fill an arena. What a production
  that fills an arena promises follows from what the one for trees does, since they stand at the same place
  whatever they come to: where this one finds nothing that one has left the arena alone, and where it finds a
  tree that one has just put its root behind all the rest.
Main exports: Rule.filling, FillingContract, production_contract
-/
import BuildScript.Proofs.Flat.Statement
import BuildScript.Proofs.Grammar.Contract

namespace BuildScript.Grammar

open BuildScript.Parser

variable {bound : Nat}

/-- The production of the level that fills an arena, with bounds as for trees. -/
def Level.filling (l : Level) (bound : Nat) : Flat.Production :=
  match l with
  | .assignment => Flat.assignment (bound + 1) (Flat.expression bound)
  | .conditional => Flat.conditional (bound + 1) (Flat.expression bound)
  | .grouping .or => Flat.disjunction (bound + 1) (Flat.expression bound)
  | .grouping .and => Flat.conjunction (bound + 1) (Flat.expression bound)
  | .comparing .equality => Flat.equality (bound + 1) (Flat.expression bound)
  | .comparing .order => Flat.relational (bound + 1) (Flat.expression bound)
  | .grouping .sum => Flat.additive (bound + 1) (Flat.expression bound)
  | .grouping .product => Flat.multiplicative (bound + 1) (Flat.expression bound)
  | .unary => Flat.unary (bound + 1) (Flat.expression bound)
  | .chain => Flat.chain (bound + 1) (Flat.expression bound)
  | .primary => Flat.primary (bound + 1) (Flat.expression bound)

/-- The production of the rule that fills an arena. -/
def Rule.filling (rule : Rule) (bound : Nat) : Flat.Production :=
  match rule with
  | .statement => Flat.statement (bound + 1)
  | .expression => Flat.expression (bound + 1)
  | .level l => l.filling bound
  | .name => Flat.name

/-- On every level, what one production finds the other one lays out. -/
theorem Level.fills (l : Level) (bound : Nat) :
    Flat.Fills Tree.layOutOption (l.production bound) (l.filling bound) := by
  have inner := Flat.fills_expression bound
  cases l with
  | assignment => exact Flat.fills_assignment inner _
  | conditional => exact Flat.fills_conditional inner _
  | grouping g =>
      cases g with
      | or => exact Flat.fills_disjunction inner _
      | and => exact Flat.fills_conjunction inner _
      | sum => exact Flat.fills_additive inner _
      | product => exact Flat.fills_multiplicative inner _
  | comparing c =>
      cases c with
      | equality => exact Flat.fills_equality inner _
      | order => exact Flat.fills_relational inner _
  | unary => exact Flat.fills_unary inner _
  | chain => exact Flat.fills_chain inner _
  | primary => exact Flat.fills_primary inner _

/-- Whatever the rule, what one production finds the other one lays out. -/
theorem Rule.fills (rule : Rule) (bound : Nat) :
    Flat.Fills Tree.layOutOption (rule.production bound) (rule.filling bound) := by
  cases rule with
  | statement => exact Flat.fills_statement (bound + 1)
  | expression => exact Flat.fills_expression (bound + 1)
  | level l => exact l.fills bound
  | name => exact Flat.fills_name

/-- What the production of a rule that fills an arena comes to in front of a terminal that the rule admits, and
    in front of others. -/
structure FillingContract (rule : Rule) (bound : Nat) (s : Flat.State) : Prop where
  /-- Nothing is found exactly in front of the others, -/
  absent_iff : (∃ s', rule.filling bound s = .ok none s') ↔ Starts rule.expects s.input = false
  /-- and leaves the input and the arena as they were. -/
  unchanged : ∀ s', rule.filling bound s = .ok none s' → s' = s
  /-- A node is found behind one terminal at the least. It is new and the last one in the arena, in which all
      that was there before is still there. -/
  found : ∀ id s', rule.filling bound s = .ok (some id) s' → s'.input.length < s.input.length ∧
    s.arena.Extends s'.arena ∧ s.arena.nodes.size ≤ id.index ∧ id.index + 1 = s'.arena.nodes.size
  /-- Whatever comes of it, nothing but tokens is taken. -/
  leaves : Leaves s.input (Flat.Outcome.state (rule.filling bound s)).input
  /-- A terminal that writes an assignment is taken where an assignment can be, and rejected for its target. -/
  target : rule.assigns = true → ∀ t rest, s.input = t :: rest → isAssignment t = true →
    ∃ s', rule.filling bound s = .error (.rejected .assignmentTarget) s' ∧ s'.input = rest
  /-- A larger bound makes no difference to what is kept. -/
  unbounded : ∀ bound' ≥ bound,
    Flat.Outcome.kept (rule.filling bound' s) = Flat.Outcome.kept (rule.filling bound s)

/-- What is known of trees that are found is known of where they lie. -/
theorem Rule.fillingContract (rule : Rule) {s : Flat.State} (enough : s.input.length ≤ bound + 1) :
    FillingContract rule bound s where
  absent_iff := by
    have absent := (rule.contract (s := s.counted) enough).absent_iff
    constructor
    · rintro ⟨s', run⟩
      exact absent.mp ⟨_, ((rule.fills bound).of_none run).1⟩
    · intro other
      obtain ⟨place, found⟩ := absent.mpr other
      exact (rule.fills bound).exists_none found
  unchanged s' run := by
    obtain ⟨found, same⟩ := (rule.fills bound).of_none run
    have input : s'.input = s.input :=
      congrArg State.input ((rule.contract (s := s.counted) enough).unchanged _ found)
    cases s
    cases s'
    simp_all
  found id s' run := by
    obtain ⟨t, found, laid⟩ := (rule.fills bound).laid_some run
    have shorter : s'.input.length < s.input.length :=
      ((rule.contract (s := s.counted) enough).found t _ found).1
    have last : id.index + 1 = s'.arena.nodes.size := laid.root_last
    have size : s'.arena.nodes.size = s.arena.nodes.size + Tree.sizes [t] := laid.size
    have one : 1 ≤ Tree.sizes [t] := by
      cases t <;> simp [Tree.sizes, Tree.size]
    exact ⟨shorter, laid.extension, by omega, last⟩
  leaves := by
    have taken := (rule.contract (s := s.counted) enough).leaves
    rw [← (rule.fills bound s).counted_state] at taken
    exact taken
  target assigns t rest input assignment := by
    have agree := rule.fills bound s
    rw [rule.assignmentTarget (s := s.counted) assigns enough input assignment] at agree
    obtain ⟨s', failed, place⟩ := agree.exists_error
    exact ⟨s', failed, congrArg State.input place⟩
  unbounded bound' le := by
    have agree := rule.fills bound' s
    rw [rule.production_eq (s := s.counted) enough le] at agree
    exact agree.kept_eq (rule.fills bound s)

/-- Every production that may find nothing keeps its contract in every state, and fails on a terminal that
    writes an assignment where it could read one. It finds what the grammar derives, where a loop ends only in
    front of a terminal that does not go on with it, and its bound makes no difference to what it comes to,
    nor does that of a whole program. So every loop ends by itself. All this is so of the productions for
    trees, and of those that fill an arena, wherever they stand at the same place. -/
theorem production_contract (rule : Rule) (bound : Nat) (s : State) (enough : s.input.length ≤ bound + 1) :
    Contract (rule.production bound) rule.expects s ∧
    (rule.assigns = true → ∀ t rest, s.input = t :: rest → isAssignment t = true →
      rule.production bound s = .error (.rejected .assignmentTarget) (s.before rest)) ∧
    (∀ found s', rule.production bound s = .ok found s' → rule.Finds s.input found s'.input) ∧
    (∀ bound' ≥ bound, rule.production bound' s = rule.production bound s) ∧
    (∀ bound' ≥ s.input.length, program bound' s = program s.input.length s ∧
      Leaves s.input (Outcome.state (program bound' s)).input) ∧
    ∀ filled : Flat.State, filled.counted = s → FillingContract rule bound filled ∧
      ∀ bound' ≥ s.input.length,
        Flat.Outcome.kept (Flat.program bound' filled) =
          Flat.Outcome.kept (Flat.program s.input.length filled) ∧
        Leaves s.input (Flat.Outcome.state (Flat.program bound' filled)).input := by
  have program (bound' : Nat) (le : s.input.length ≤ bound') :
      program bound' s = program s.input.length s :=
    (program_eq_of_le (Nat.le_refl s.input.length) le).symm
  refine ⟨rule.contract enough, fun assigns _ _ input assignment =>
    rule.assignmentTarget assigns enough input assignment, fun _ _ run =>
    finds_of_ok (rule.cutoff bound) (rule.reads enough) run, fun bound' le => rule.production_eq enough le,
    fun bound' le => ⟨program bound' le, program bound' le ▸ leaves_program s⟩, ?_⟩
  rintro filled rfl
  refine ⟨rule.fillingContract enough, fun bound' le => ?_⟩
  have agree := Flat.fills_program bound' filled
  rw [program bound' le] at agree
  have taken := leaves_program filled.counted
  rw [← agree.counted_state] at taken
  exact ⟨agree.kept_eq (Flat.fills_program _ filled), taken⟩

/-- A product that misses its left operand, read as a sum in front of source that is no token, with a limit
    that it just keeps. -/
theorem production_contract_product :
    ([.punct .star, .name "x", .invalid] : List Terminal).length ≤ 2 + 1 ∧
      Contract (Rule.production (.level (.grouping .sum)) 2) (Rule.expects (.level (.grouping .sum)))
        ⟨[.punct .star, .name "x", .invalid], 0, some 3⟩ ∧
      Rule.production (.level (.grouping .sum)) 2 ⟨[.punct .star, .name "x", .invalid], 0, some 3⟩ =
        .ok (some (.arithmetic .mul .empty (.name "x"))) ⟨[.invalid], 3, some 3⟩ ∧
      FillingContract (.level (.grouping .sum)) 2
        ⟨[.punct .star, .name "x", .invalid], Arena.empty (some 3)⟩ ∧
      Rule.filling (.level (.grouping .sum)) 2
          ⟨[.punct .star, .name "x", .invalid], Arena.empty (some 3)⟩ =
        .ok (some ⟨2⟩) ⟨[.invalid],
          ⟨#[.empty, .name ⟨0⟩, .arithmetic .mul ⟨0⟩ ⟨1⟩], #[], #["x"], some 3⟩⟩ := by
  have contract := production_contract (.level (.grouping .sum)) 2
    ⟨[.punct .star, .name "x", .invalid], 0, some 3⟩ (by decide)
  exact ⟨by decide, contract.1, rfl, (contract.2.2.2.2.2 _ rfl).1, by cbv⟩

end BuildScript.Grammar
