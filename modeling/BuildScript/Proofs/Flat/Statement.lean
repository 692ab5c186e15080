/-
Module: BuildScript.Proofs.Flat.Statement
Layer: proofs about flat readings
Purpose: Every production for statements fills the arena with what the production for trees finds, and so does
  the reading of a whole program. A program is therefore read into the arena in which its tree would be laid
  out, and rejected just where it is rejected as a tree.
Main exports: Flat.fills_statement, Flat.fills_program, parse_eq, parse_eq_ok
-/
import BuildScript.Program
import BuildScript.Proofs.Flat.Expression

namespace BuildScript

namespace Flat

open BuildScript.Parser BuildScript.Tree

/-- The invariant of the loop is that the statements so far lie in the arena, one behind the other. -/
theorem fills_statements {x : BuildScript.Production} {y : Production} (h : Fills layOutOption x y)
    (bound : Nat) : Fills layOutAll (Grammar.statements x bound) (statements y bound) := by
  induction bound with
  | zero => exact fun s => .pure (by rw [layOutAll]; rfl)
  | succ bound ih =>
      refine fun s => (h s).bindOption (fun s₁ same => .pure (by rw [layOutAll, same]; rfl))
        fun first id s₁ laid => (ih s₁).bind fun others ids s₂ behind => .pure (layOutAll_cons laid behind)

/-- The statements come first, then the list of them and then its node. Without a statement there is an empty
    node alone. -/
theorem fills_body {x : BuildScript.Production} {y : Production} (h : Fills layOutOption x y)
    (bound : Nat) : Fills layOut (Grammar.body x bound) (body y bound) := by
  refine fun s => (fills_statements h bound s).bind fun all ids s₁ laid => ?_
  cases all with
  | nil =>
      rw [layOutAll] at laid
      obtain ⟨rfl, same⟩ := Prod.mk.inj laid
      refine .alloc ?_
      rw [layOut, same]
      rfl
  | cons first others =>
      obtain ⟨id, rest, rfl⟩ := exists_cons_of_layOutAll laid
      refine .allocList fun range s₂ stored => .alloc ?_
      rw [layOut, Builder.bind_apply laid, Builder.bind_apply stored]
      rfl

section

variable {x : BuildScript.Production} {y : Production} (h : Fills layOutOption x y) {xs : Parser Tree}
  {ys : Step NodeId} (hbody : Fills layOut xs ys)

include h hbody

/-- The predicate lies in front of the body, and their node behind both. -/
theorem fills_clause : Fills layOut (Grammar.clauses.clause x xs) (clauses.clause y ys) := by
  refine fun s => (fills_require h _ s).bind fun predicate i s₁ first =>
    (hbody s₁).bind fun body j s₂ second => .alloc ?_
  rw [layOut, Builder.bind_apply first, Builder.bind_apply second]
  rfl

/-- The clauses lie in the arena in the order in which they are read. -/
theorem fills_clauses (bound : Nat) : Fills layOutAll (Grammar.clauses x xs bound) (clauses y ys bound) := by
  induction bound with
  | zero => exact fun s => (fills_clause h hbody s).bind fun _ _ _ laid => .pure (layOutAll_singleton laid)
  | succ bound ih =>
      refine fun s => (fills_clause h hbody s).bind fun first id s₁ laid =>
        .read (.of_input (.accept _)) fun more s₂ same => ?_
      rw [← same] at laid
      cases more with
      | true => exact (ih s₂).bind fun _ _ _ others => .pure (layOutAll_cons laid others)
      | false => exact .pure (layOutAll_singleton laid)

omit h in
theorem fills_otherwise : Fills layOutOption (Grammar.otherwise xs) (otherwise ys) := by
  refine fun s => .read (.of_input (.accept _)) fun found s₁ same => ?_
  rw [← same]
  cases found with
  | true => exact .found (hbody s₁)
  | false => exact .pure (by rw [layOutOption]; rfl)

/-- The last branch lies behind all clauses, and the list of the clauses is stored behind it. -/
theorem fills_choice (bound : Nat) : Fills layOut (Grammar.choice x xs bound) (choice y ys bound) := by
  refine fun s => (fills_clauses h hbody bound s).bind fun clauses ids s₁ first =>
    (fills_otherwise hbody s₁).bind fun otherwise id? s₂ second => .read (.expect _ _) fun _ s₃ same =>
    .allocList fun range s₄ stored => .alloc ?_
  rw [same] at stored
  rw [layOut, Builder.bind_apply first, Builder.bind_apply second, Builder.bind_apply stored]
  rfl

omit h hbody in
/-- The variables lie in the arena in the order in which they are read. -/
theorem fills_loopVariables (bound : Nat) :
    Fills layOutAll (Grammar.loopVariables bound) (loopVariables bound) := by
  induction bound with
  | zero =>
      exact fun s => (fills_require fills_name _ s).bind fun _ _ _ laid => .pure (layOutAll_singleton laid)
  | succ bound ih =>
      refine fun s => (fills_require fills_name _ s).bind fun first id s₁ laid =>
        .read (.of_input (.accept _)) fun more s₂ same => ?_
      rw [← same] at laid
      cases more with
      | true => exact (ih s₂).bind fun _ _ _ others => .pure (layOutAll_cons laid others)
      | false => exact .pure (layOutAll_singleton laid)

/-- The list of the variables is stored last, behind the body. -/
theorem fills_loop (bound : Nat) : Fills layOut (Grammar.loop x xs bound) (loop y ys bound) := by
  refine fun s => (fills_loopVariables bound s).bind fun vars ids s₁ first =>
    .read (.expect _ _) fun _ s₂ same => (fills_require h _ s₂).bind fun iterable i s₃ second =>
    (hbody s₃).bind fun body j s₄ third => .read (.expect _ _) fun _ s₅ same' =>
    .allocList fun range s₆ stored => .alloc ?_
  rw [← same] at first
  rw [same'] at stored
  rw [layOut, Builder.bind_apply first, Builder.bind_apply second, Builder.bind_apply third,
    Builder.bind_apply stored]
  rfl

end

/-- Statements lie in the arena as their trees are laid out; those in bodies are the hypothesis of the
    induction. -/
theorem fills_statement (bound : Nat) :
    Fills layOutOption (Grammar.statement bound) (statement bound) := by
  induction bound with
  | zero => exact fun s => .pure (by rw [layOutOption]; rfl)
  | succ bound ih =>
      refine fun s => .read (.of_input (.take? _)) fun opening s₁ same => ?_
      rw [← same]
      rcases opening with _ | ⟨_ | _ | kind⟩
      · exact fills_expression (bound + 1) s₁
      · exact .found (fills_choice (fills_expression bound) (fills_body ih bound) bound s₁)
      · exact .found (fills_loop (fills_expression bound) (fills_body ih bound) bound s₁)
      · exact .found (.alloc (by rw [layOut]; rfl))

/-- What is left behind the program is looked at only when its tree lies in the arena. -/
theorem fills_program (bound : Nat) : Fills layOut (Grammar.program bound) (program bound) := by
  refine fun s => (fills_body (fills_statement bound) bound s).bind fun root id s₁ laid =>
    .read (.of_input .peek) fun next s₂ same => ?_
  cases next with
  | none => exact .pure (same ▸ laid)
  | some t => exact .reject _

end Flat

/-- Terminals are read into an arena as they are read as a tree. -/
theorem agree_parseTerminals (maxNodes : Option Nat) (input : List Terminal) :
    Flat.Agree (fun t root arena => t.layOut (Arena.empty maxNodes) = (root, arena))
      (readTerminals maxNodes input) (parseTerminals maxNodes input) :=
  Flat.fills_program input.length { input, arena := Arena.empty maxNodes }

/-- Where reading into an arena fails, reading as a tree fails alike. -/
theorem readTerminals_eq_error {maxNodes : Option Nat} {input : List Terminal} {e : ParseError}
    {s : Flat.State} (run : parseTerminals maxNodes input = .error e s) :
    readTerminals maxNodes input = .error e s.counted := by
  have agree := agree_parseTerminals maxNodes input
  rw [run] at agree
  exact agree.of_error

/-- Reading a program into an arena is reading it as a tree and laying the tree out. -/
theorem parse_eq (source : String) (maxNodes : Option Nat) :
    parse source maxNodes = (readTree maxNodes source).map fun t => t.toAst maxNodes := by
  unfold parse readTree
  have agree := agree_parseTerminals maxNodes (terminals source)
  generalize readTerminals maxNodes (terminals source) = found at agree ⊢
  generalize parseTerminals maxNodes (terminals source) = filled at agree ⊢
  cases agree with
  | @ok t root s laid =>
      have same : t.toAst maxNodes = { arena := s.arena, root } := by
        simp only [Tree.toAst, laid]
        rfl
      exact congrArg Except.ok same.symm
  | error e s => rfl

/-- The programs that are read are the trees that are read, laid out. -/
theorem parse_eq_ok {source : String} {maxNodes : Option Nat} {ast : Ast} :
    parse source maxNodes = .ok ast ↔ ∃ t, readTree maxNodes source = .ok t ∧ ast = t.toAst maxNodes := by
  rw [parse_eq]
  cases readTree maxNodes source with
  | error e => simp [Except.map]
  | ok t => simp [Except.map, eq_comm]

end BuildScript
