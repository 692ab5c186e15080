/-
Module: BuildScript.Proofs.Grammar.Count
Layer: proofs about the grammar
Purpose: A reading that succeeds has built exactly the nodes of its tree: none is built in vain and none is
  put to use twice. Steps are followed with the nodes in hand, those of trees that have been read and
  not yet been put into a larger one.
Main exports: Parser.Counts, counts_expression, counts_program
-/
import BuildScript.Proofs.Grammar.Composition

namespace BuildScript

open BuildScript.Tree

namespace Parser

variable {α β : Type}

/-- A step that begins with `inHand` nodes in hand and succeeds with `a` ends with `weight a` in hand; the
    difference has been built. -/
def Counts (inHand : Nat) (weight : α → Nat) (x : Parser α) : Prop :=
  ∀ s a s', x s = .ok a s' → s'.built + inHand = s.built + weight a

namespace Counts

/-- Nothing is built, so what is answered must weigh what is in hand. -/
theorem pure {inHand : Nat} {weight : α → Nat} {a : α} (h : inHand = weight a) :
    Counts inHand weight (Pure.pure a : Parser α) := by
  rintro s b s' run
  cases run
  rw [h]

/-- What the first step leaves in hand is what the second one begins with. -/
theorem bind {inHand : Nat} {first : α → Nat} {weight : β → Nat} {x : Parser α} {f : α → Parser β}
    (hx : Counts inHand first x) (hf : ∀ a, Counts (first a) weight (f a)) :
    Counts inHand weight (x >>= f) := by
  intro s b s' run
  obtain ⟨a, s1, begins, goes_on⟩ := bind_inv_ok run
  have before : s1.built + inHand = s.built + first a := hx s a s1 begins
  have after : s'.built + first a = s1.built + weight b := hf a s1 b s' goes_on
  omega

/-- Further nodes in hand stay there. -/
theorem carry {inHand : Nat} {weight : α → Nat} {x : Parser α} (h : Counts inHand weight x)
    (more : Nat) : Counts (more + inHand) (fun a => more + weight a) x := by
  intro s a s' run
  have count : s'.built + inHand = s.built + weight a := h s a s' run
  simp only
  omega

theorem peek (inHand : Nat) : Counts inHand (fun _ => inHand) peek := by
  rintro s a s' run
  cases run
  rfl

theorem skip (inHand : Nat) : Counts inHand (fun _ => inHand) skip := by
  rintro s a s' run
  cases run
  rfl

/-- Reading terminals builds nothing and puts nothing out of hand. -/
theorem accept (inHand : Nat) (t : Terminal) : Counts inHand (fun _ => inHand) (accept t) := by
  intro s a s' run
  unfold Parser.accept at run
  split at run
  · split at run <;> cases run <;> rfl
  · cases run
    rfl

theorem take? (inHand : Nat) (f : Terminal → Option α) : Counts inHand (fun _ => inHand) (take? f) := by
  intro s a s' run
  unfold Parser.take? at run
  split at run
  · split at run <;> cases run <;> rfl
  · cases run
    rfl

/-- A step that fails is under no obligation. -/
theorem reject (inHand : Nat) (weight : α → Nat) (cause : SyntaxError) :
    Counts inHand weight (reject cause) := by
  intro s a s' run
  cases run

/-- Building puts all that is in hand into one tree, which has one node more. -/
theorem build {inHand : Nat} {t : Tree} (h : t.size = inHand + 1) : Counts inHand Tree.size (build t) := by
  intro s a s' run
  unfold Parser.build at run
  split at run
  · cases run
  · cases run
    simp only
    omega

theorem expect (inHand : Nat) (t : Terminal) (cause : SyntaxError) :
    Counts inHand (fun _ => inHand) (expect t cause) := by
  apply bind (accept inHand t)
  intro found
  cases found with
  | true => exact pure rfl
  | false => exact reject inHand _ cause

/-- A tree that a production finds is in hand, just as it was when it was still optional. -/
theorem require {p : Production} (hp : Counts 0 sizeOption p) (cause : SyntaxError) :
    Counts 0 Tree.size (require p cause) := by
  apply bind hp
  intro found
  cases found with
  | some t => exact pure rfl
  | none => exact reject _ _ cause

/-- An operand that is missing stands for a node as well, and this node is built here. -/
theorem leftOperand (lhs : Option Tree) : Counts (sizeOption lhs) Tree.size (leftOperand lhs) := by
  cases lhs with
  | some t => exact pure rfl
  | none => exact build rfl

end Counts

end Parser

namespace Grammar

open BuildScript.Parser

/-!
### Lists in brackets
-/

theorem counts_continues (inHand : Nat) (close : Punct) :
    Counts inHand (fun _ => inHand) (continues close) := by
  refine .bind (.accept inHand _) fun found => ?_
  cases found with
  | true => exact .bind (.peek inHand) fun _ => .pure rfl
  | false => exact .pure rfl

/-- Elements are in hand until the list that holds them is built, each with all of its nodes. -/
theorem counts_elements (close : Punct) {element : Parser Tree} (helement : Counts 0 Tree.size element)
    (bound : Nat) : Counts 0 sizes (elements close element bound) := by
  induction bound with
  | zero => exact .bind helement fun first => .pure (by simp [sizes])
  | succ bound ih =>
      refine .bind helement fun first => .bind (counts_continues _ close) fun more => ?_
      cases more with
      | true => exact .bind (ih.carry first.size) fun others => .pure (by simp [sizes])
      | false => exact .pure (by simp [sizes])

/-- The brackets are no nodes, whatever stands between them. -/
theorem counts_bracketed {α : Type} {inHand : Nat} {weight : List α → Nat} (close : Punct)
    (unclosed : SyntaxError) {all : Parser (List α)} (hall : Counts inHand weight all)
    (hnil : weight [] = inHand) : Counts inHand weight (bracketed close unclosed all) := by
  refine .bind (.accept inHand _) fun found => ?_
  cases found with
  | true => exact .pure hnil.symm
  | false => exact .bind hall fun found => .bind (.expect _ _ _) fun _ => .pure rfl

/-!
### Primaries and chains
-/

/-- A name is a node if there is one. -/
theorem counts_name : Counts 0 sizeOption name := by
  refine .bind (.take? 0 _) fun found => ?_
  cases found with
  | some text => exact .bind (.build rfl) fun t => .pure rfl
  | none => exact .pure rfl

/-- A literal is a single node. -/
theorem counts_literal {t : Tree} (single : t.size = 1) : Counts 0 sizeOption (literal t) :=
  .bind (.skip 0) fun _ => .bind (.build single) fun _ => .pure rfl

theorem counts_number (value? : Option Int64) : Counts 0 sizeOption (number value?) := by
  cases value? with
  | some value => exact counts_literal rfl
  | none => exact .reject _ _ _

/-- How many constructs an argument has. -/
def Argument.size : Argument Tree → Nat
  | .positional value => value.size
  | .keyword arg => arg.size

/-- How many constructs the arguments have together. -/
def Argument.sizes : List (Argument Tree) → Nat
  | [] => 0
  | arg :: others => arg.size + sizes others

/-- An application holds its positional and its keyword arguments apart, and no node gets lost when they are
    separated. -/
theorem Argument.sizes_split (all : List (Argument Tree)) :
    Tree.sizes (all.filterMap positional?) + Tree.sizes (all.filterMap keyword?) = sizes all := by
  induction all with
  | nil => rfl
  | cons arg others ih =>
      rw [sizes]
      cases arg with
      | positional value =>
          simp [List.filterMap_cons, positional?, keyword?, Tree.sizes, size, ← ih, Nat.add_assoc]
      | keyword arg =>
          simp [List.filterMap_cons, positional?, keyword?, Tree.sizes, size, ← ih, Nat.add_left_comm]

section

variable {expr : Production} (hexpr : Counts 0 sizeOption expr)

include hexpr

/-- The key is in hand while the value is read. -/
theorem counts_entry : Counts 0 Tree.size (entry expr) := by
  refine .bind (.require hexpr _) fun key => .bind (.expect _ _ _) fun _ => ?_
  refine .bind (.carry (.require hexpr _) key.size) fun value => .build ?_
  simp only [Tree.size]

/-- A literal, a list in brackets or a name builds the nodes of its tree. Parentheses build none. -/
theorem counts_primary (bound : Nat) : Counts 0 sizeOption (primary bound expr) := by
  refine .bind (.peek 0) fun next => ?_
  split
  · exact .bind (.skip 0) fun _ => .bind (.require hexpr _) fun inner => .bind (.expect _ _ _) fun _ =>
      .pure rfl
  · exact .bind (.skip 0) fun _ =>
      .bind (counts_bracketed _ _ (counts_elements _ (.require hexpr _) bound) rfl) fun items =>
      .bind (.build rfl) fun t => .pure rfl
  · exact .bind (.skip 0) fun _ =>
      .bind (counts_bracketed _ _ (counts_elements _ (counts_entry hexpr) bound) rfl) fun entries =>
      .bind (.build rfl) fun t => .pure rfl
  · exact counts_literal rfl
  · exact counts_literal rfl
  · exact counts_number _
  · exact counts_literal rfl
  · exact counts_name

theorem counts_field (bound : Nat) : Counts 0 Tree.size (field bound expr) := by
  refine .bind (.require (counts_primary hexpr bound) _) fun found => ?_
  split
  · exact .pure rfl
  · exact .reject _ _ _

/-- The keyword, if there is one, is in hand while the value is read. A positional argument is its value. -/
theorem counts_argument (keywordsOnly : Bool) : Counts 0 Argument.size (argument expr keywordsOnly) := by
  refine .bind (.require hexpr _) fun arg => .bind (.accept _ _) fun colon => ?_
  cases colon with
  | false =>
      cases keywordsOnly with
      | true => exact .reject _ _ _
      | false => exact .pure rfl
  | true =>
      have value : Counts arg.size Argument.size (do
          let value ← Parser.require expr .keywordValue
          return Argument.keyword (← Parser.build (.keywordArg arg value))) :=
        .bind (.carry (.require hexpr _) arg.size) fun value => .bind (.build rfl) fun t => .pure rfl
      cases isName : arg.isName with
      | true => simpa [isName] using value
      | false => simpa [isName] using Counts.bind (.reject _ (fun _ => arg.size) _) fun _ : Unit => value

theorem counts_arguments (bound : Nat) :
    ∀ keywordsOnly, Counts 0 Argument.sizes (arguments expr bound keywordsOnly) := by
  induction bound with
  | zero =>
      exact fun _ => .bind (counts_argument hexpr _) fun first => .pure (by simp [Argument.sizes])
  | succ bound ih =>
      intro keywordsOnly
      refine .bind (counts_argument hexpr _) fun first => .bind (counts_continues _ _) fun more => ?_
      cases more with
      | true =>
          exact .bind (.carry (ih _) first.size) fun others => .pure (by simp [Argument.sizes])
      | false => exact .pure (by simp [Argument.sizes])

/-- The callee is in hand while the arguments are read, and is put into the application with them. -/
theorem counts_application (bound : Nat) (callee : Tree) :
    Counts callee.size Tree.size (application bound expr callee) := by
  have arguments : Counts callee.size (fun all => callee.size + Argument.sizes all)
      (bracketed .rightParen .argumentsClose (arguments expr bound false)) :=
    counts_bracketed _ _ (.carry (counts_arguments hexpr bound false) callee.size) rfl
  refine .bind arguments fun all => .build ?_
  rw [← Argument.sizes_split all, ← Nat.add_assoc, Tree.size]

/-- The indexed tree is in hand while the index is read. -/
theorem counts_subscript (target : Tree) : Counts target.size Tree.size (subscript expr target) :=
  .bind (.carry (.require hexpr _) target.size) fun _ => .bind (.expect _ _ _) fun _ => .build rfl

/-- The object that the links are about is in hand first. With each link it becomes part of a larger one. -/
theorem counts_links (bound : Nat) :
    ∀ object, Counts object.size Tree.size (links expr bound object) := by
  induction bound with
  | zero => exact fun _ => .pure rfl
  | succ bound ih =>
      intro object
      refine .bind (.take? _ _) fun link => ?_
      rcases link with _ | ⟨_ | _ | _⟩
      · exact .pure rfl
      · exact .bind (.carry (counts_field hexpr _) object.size) fun _ => .bind (.build rfl) fun _ => ih _
      · exact .bind (counts_application hexpr _ _) fun _ => ih _
      · exact .bind (counts_subscript hexpr _) fun _ => ih _

/-- Links use up what has been read in front of them. -/
theorem counts_chain (bound : Nat) : Counts 0 sizeOption (chain bound expr) := by
  refine .bind (counts_primary hexpr bound) fun found => ?_
  cases found with
  | none => exact .pure rfl
  | some first =>
      simp only
      split
      · exact .bind (counts_links hexpr bound first) fun _ => .pure rfl
      · exact .pure rfl

/-!
### Operators
-/

theorem counts_unary (bound : Nat) : Counts 0 sizeOption (unary bound expr) := by
  refine .bind (.take? 0 _) fun op => ?_
  cases op with
  | none => exact counts_chain hexpr bound
  | some op =>
      exact .bind (.require (counts_chain hexpr bound) _) fun _ => .bind (.build rfl) fun _ => .pure rfl

end

/-- Behind each operator what has been read so far is in hand, and becomes the left operand. -/
theorem counts_leftLevel {ω : Type} (op? : Terminal → Option ω) {node : ω → Tree → Tree → Tree}
    (hnode : ∀ op l r, (node op l r).size = l.size + r.size + 1) {operand : Production}
    (hoperand : Counts 0 sizeOption operand) (unfinished : SyntaxError) (bound : Nat) :
    Counts 0 sizeOption (leftLevel op? node operand unfinished bound) := by
  refine .bind hoperand fun first => ?_
  induction bound generalizing first with
  | zero => exact .pure rfl
  | succ bound ih =>
      refine .bind (.take? _ _) fun op => ?_
      cases op with
      | none => exact .pure rfl
      | some op =>
          exact .bind (.leftOperand _) fun left => .bind (.carry (.require hoperand _) left.size)
            fun _ => .bind (.build (hnode _ _ _)) fun whole => ih (some whole)

section

variable {expr : Production} (hexpr : Counts 0 sizeOption expr)

include hexpr

theorem counts_multiplicative (bound : Nat) : Counts 0 sizeOption (multiplicative bound expr) :=
  counts_leftLevel _ (fun _ _ _ => rfl) (counts_unary hexpr bound) _ bound

theorem counts_additive (bound : Nat) : Counts 0 sizeOption (additive bound expr) :=
  counts_leftLevel _ (fun _ _ _ => rfl) (counts_multiplicative hexpr bound) _ bound

/-- The second operator of `not in` is a terminal only, and no node stands for it. -/
theorem counts_relational (bound : Nat) : Counts 0 sizeOption (relational bound expr) := by
  refine .bind (counts_additive hexpr bound) fun lhs => .bind (.take? _ _) fun op => ?_
  cases op with
  | none => exact .pure rfl
  | some op =>
      have operands : Counts (sizeOption lhs) sizeOption (do
          let left ← Parser.leftOperand lhs
          let right ← Parser.require (additive bound expr) .relationalOperand
          return some (← Parser.build (.relational op left right))) :=
        .bind (.leftOperand _) fun left =>
          .bind (.carry (.require (counts_additive hexpr bound) _) left.size) fun _ =>
          .bind (.build rfl) fun _ => .pure rfl
      by_cases member : op = .notMember
      · simpa [member] using Counts.bind (.expect _ _ _) fun _ => member ▸ operands
      · simpa [member] using operands

theorem counts_equality (bound : Nat) : Counts 0 sizeOption (equality bound expr) := by
  refine .bind (counts_relational hexpr bound) fun lhs => .bind (.take? _ _) fun op => ?_
  cases op with
  | none => exact .pure rfl
  | some op =>
      exact .bind (.leftOperand _) fun left =>
        .bind (.carry (.require (counts_relational hexpr bound) _) left.size) fun _ =>
        .bind (.build rfl) fun _ => .pure rfl

theorem counts_conjunction (bound : Nat) : Counts 0 sizeOption (conjunction bound expr) :=
  counts_leftLevel _ (fun _ _ _ => rfl) (counts_equality hexpr bound) _ bound

theorem counts_disjunction (bound : Nat) : Counts 0 sizeOption (disjunction bound expr) :=
  counts_leftLevel _ (fun _ _ _ => rfl) (counts_conjunction hexpr bound) _ bound

/-- The condition is in hand while the first branch is read, and both are while the second is. -/
theorem counts_conditional (bound : Nat) : Counts 0 sizeOption (conditional bound expr) := by
  refine .bind (counts_disjunction hexpr bound) fun condition => .bind (.accept _ _) fun question => ?_
  cases question with
  | true =>
      exact .bind (.leftOperand _) fun condition =>
        .bind (.carry (.require hexpr _) condition.size) fun yes => .bind (.expect _ _ _) fun _ =>
        .bind (.carry (.require hexpr _) (condition.size + yes.size)) fun _ =>
        .bind (.build rfl) fun _ => .pure rfl
  | false => exact .pure rfl

/-- The target is in hand while the value is read. -/
theorem counts_assignment (bound : Nat) : Counts 0 sizeOption (assignment bound expr) := by
  refine .bind (counts_conditional hexpr bound) fun lhs => .bind (.take? _ _) fun op => ?_
  cases op with
  | none => exact .pure rfl
  | some op =>
      cases lhs with
      | none => exact .reject _ _ _
      | some target =>
          have value : Counts target.size sizeOption (do
              let value ← Parser.require expr .assignmentValue
              return some (← Parser.build (.assignment op target value))) :=
            .bind (.carry (.require hexpr _) target.size) fun _ => .bind (.build rfl) fun _ => .pure rfl
          cases isName : target.isName with
          | true => simpa [isName, sizeOption] using value
          | false =>
              simpa [isName] using
                Counts.bind (.reject _ (fun _ => target.size) _) fun _ : Unit => value

end

/-- Every expression builds exactly its own nodes; those inside it are the hypothesis of the induction. -/
theorem counts_expression (bound : Nat) : Counts 0 sizeOption (expression bound) := by
  induction bound with
  | zero => exact .pure rfl
  | succ bound ih => exact counts_assignment ih (bound + 1)

/-!
### Statements
-/

/-- The statements are in hand until the body is built. An empty body is a node as well. -/
theorem counts_body {statement : Production} (hstatement : Counts 0 sizeOption statement)
    (bound : Nat) : Counts 0 Tree.size (body statement bound) := by
  have statements : Counts 0 sizes (statements statement bound) := by
    induction bound with
    | zero => exact .pure rfl
    | succ bound ih =>
        refine .bind hstatement fun found => ?_
        cases found with
        | none => exact .pure rfl
        | some first => exact .bind (ih.carry first.size) fun _ => .pure rfl
  refine .bind statements fun all => ?_
  cases all with
  | nil => exact .build rfl
  | cons first others => exact .build rfl

section

variable {expr : Production} (hexpr : Counts 0 sizeOption expr) {body : Parser Tree}
  (hbody : Counts 0 Tree.size body)

include hexpr hbody

/-- Every clause holds its predicate and its body, and all of them are in hand at the end. -/
theorem counts_clauses (bound : Nat) : Counts 0 sizes (clauses expr body bound) := by
  have clause : Counts 0 Tree.size (clauses.clause expr body) :=
    .bind (.require hexpr _) fun predicate => .bind (hbody.carry predicate.size) fun _ => .build rfl
  induction bound with
  | zero => exact .bind clause fun _ => .pure rfl
  | succ bound ih =>
      refine .bind clause fun first => .bind (.accept _ _) fun more => ?_
      cases more with
      | true => exact .bind (ih.carry first.size) fun _ => .pure rfl
      | false => exact .pure rfl

/-- The clauses are in hand while the last branch is read. -/
theorem counts_choice (bound : Nat) : Counts 0 Tree.size (choice expr body bound) := by
  have otherwise : Counts 0 sizeOption (otherwise body) := by
    refine .bind (.accept 0 _) fun found => ?_
    cases found with
    | true => exact .bind hbody fun _ => .pure rfl
    | false => exact .pure rfl
  exact .bind (counts_clauses hexpr hbody bound) fun clauses =>
    .bind (otherwise.carry (sizes clauses)) fun _ => .bind (.expect _ _ _) fun _ => .build rfl

/-- The variables are in hand while the rest of the loop is read, and so is then what it runs over. -/
theorem counts_loop (bound : Nat) : Counts 0 Tree.size (loop expr body bound) := by
  have loopVariables : Counts 0 sizes (loopVariables bound) := by
    induction bound with
    | zero => exact .bind (.require counts_name _) fun _ => .pure rfl
    | succ bound ih =>
        refine .bind (.require counts_name _) fun first => .bind (.accept _ _) fun more => ?_
        cases more with
        | true => exact .bind (ih.carry first.size) fun _ => .pure rfl
        | false => exact .pure rfl
  exact .bind loopVariables fun vars => .bind (.expect _ _ _) fun _ =>
    .bind (.carry (.require hexpr _) (sizes vars)) fun iterable =>
    .bind (hbody.carry (sizes vars + iterable.size)) fun _ => .bind (.expect _ _ _) fun _ => .build rfl

end

/-- A statement builds exactly its own nodes; those of the bodies in it are the hypothesis of the induction. -/
theorem counts_statement (bound : Nat) : Counts 0 sizeOption (statement bound) := by
  induction bound with
  | zero => exact .pure rfl
  | succ bound ih =>
      refine .bind (.take? _ _) fun opening => ?_
      rcases opening with _ | ⟨_ | _ | kind⟩
      · exact counts_expression _
      · exact .bind (counts_choice (counts_expression _) (counts_body ih _) _) fun _ => .pure rfl
      · exact .bind (counts_loop (counts_expression _) (counts_body ih _) _) fun _ => .pure rfl
      · exact .bind (.build rfl) fun _ => .pure rfl

/-- A program that has been read is made of all the nodes built for it. -/
theorem counts_program (bound : Nat) : Counts 0 Tree.size (program bound) := by
  refine .bind (counts_body (counts_statement bound) bound) fun root => .bind (.peek _) fun next => ?_
  cases next with
  | none => exact .pure rfl
  | some t => exact .reject _ _ _

end Grammar

end BuildScript
