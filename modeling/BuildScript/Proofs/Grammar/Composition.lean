/-
Module: BuildScript.Proofs.Grammar.Composition
Layer: proofs about the grammar
Purpose: Every production is composed of a few steps: looking at the terminal that comes next, reading it,
  rejecting the input and building a node. What two steps in a row come to is told by what each of them
  does; a property of steps that sequencing keeps holds of all productions as soon as it holds of these.
Main exports: bind_apply_ok, bind_apply_error, bind_inv_ok, bind_inv_error, Parser.Compositional,
  Compositional.expression, Compositional.statement, Compositional.program
-/
import BuildScript.Grammar.Statement

namespace BuildScript

namespace Parser

/-!
### Two steps in a row
-/

variable {α β : Type}

/-- Behind a step that succeeds the sequence goes on where that has come to. -/
theorem bind_apply_ok {x : Parser α} {f : α → Parser β} {s s' : State} {a : α}
    (h : x s = .ok a s') : (x >>= f) s = f a s' := by
  simp only [bind, EStateM.bind, h]

/-- Behind a step that fails the sequence has failed. -/
theorem bind_apply_error {x : Parser α} {f : α → Parser β} {s s' : State} {e : ParseError}
    (h : x s = .error e s') : (x >>= f) s = .error e s' := by
  simp only [bind, EStateM.bind, h]

/-- A sequence that has succeeded has done so in both of its steps. -/
theorem bind_inv_ok {x : Parser α} {f : α → Parser β} {s s' : State} {b : β}
    (run : (x >>= f) s = .ok b s') : ∃ a s1, x s = .ok a s1 ∧ f a s1 = .ok b s' := by
  cases first : x s with
  | ok a s1 => exact ⟨a, s1, rfl, (bind_apply_ok first).symm.trans run⟩
  | error e s1 =>
      rw [bind_apply_error first] at run
      cases run

/-- A sequence that has failed has done so in its first step or, behind that, in its second. -/
theorem bind_inv_error {x : Parser α} {f : α → Parser β} {s s' : State} {e : ParseError}
    (run : (x >>= f) s = .error e s') :
    x s = .error e s' ∨ ∃ a s1, x s = .ok a s1 ∧ f a s1 = .error e s' := by
  cases first : x s with
  | ok a s1 => exact .inr ⟨a, s1, rfl, (bind_apply_ok first).symm.trans run⟩
  | error e s1 =>
      rw [bind_apply_error first] at run
      cases run
      exact .inl rfl

end Parser

/-!
### Properties of steps
-/

/-- A property of steps that holds of the basic ones and of what is composed of steps with the
    property. -/
structure Parser.Compositional (P : ∀ {α : Type}, Parser α → Prop) : Prop where
  pure : ∀ {α : Type} (a : α), P (pure a : Parser α)
  bind : ∀ {α β : Type} {x : Parser α} {f : α → Parser β}, P x → (∀ a, P (f a)) → P (x >>= f)
  peek : P Parser.peek
  skip : P Parser.skip
  accept : ∀ t, P (Parser.accept t)
  take? : ∀ {α : Type} (f : Terminal → Option α), P (Parser.take? f)
  reject : ∀ {α : Type} (cause : SyntaxError), P (Parser.reject cause : Parser α)
  build : ∀ t, P (Parser.build t)

namespace Parser.Compositional

open BuildScript.Parser Grammar

variable {P : ∀ {α : Type}, Parser α → Prop} (h : Compositional P)

include h

/-!
### Derived steps
-/

/-- A terminal that is expected is accepted, or else the input is rejected. -/
theorem expect (t : Terminal) (cause : SyntaxError) : P (expect t cause) := by
  apply h.bind (h.accept t)
  intro found
  cases found with
  | true => exact h.pure _
  | false => exact h.reject cause

/-- A production that must find something finds it, or else the input is rejected. -/
theorem require {p : Production} (hp : P p) (cause : SyntaxError) : P (require p cause) := by
  apply h.bind hp
  intro found
  cases found with
  | some t => exact h.pure t
  | none => exact h.reject cause

/-- A left operand that is missing is an empty tree, which is built on the spot. -/
theorem leftOperand (lhs : Option Tree) : P (leftOperand lhs) := by
  cases lhs with
  | some t => exact h.pure t
  | none => exact h.build .empty

/-!
### Lists in brackets
-/

/-- Behind a comma the list goes on, except in front of the closing bracket, which is only looked at. -/
theorem continues (close : Punct) : P (continues close) := by
  apply h.bind (h.accept _)
  intro found
  cases found with
  | true => exact h.bind h.peek fun next => h.pure _
  | false => exact h.pure _

/-- The induction is on how many more elements the loop may read. -/
theorem elements (close : Punct) {element : Parser Tree} (helement : P element) (bound : Nat) :
    P (elements close element bound) := by
  induction bound with
  | zero => exact h.bind helement fun _ => h.pure _
  | succ bound ih =>
      refine h.bind helement fun first => h.bind (h.continues close) fun more => ?_
      cases more with
      | true => exact h.bind ih fun _ => h.pure _
      | false => exact h.pure _

/-- What stands in brackets is read unless the closing bracket follows at once. -/
theorem bracketed {α : Type} (close : Punct) (unclosed : SyntaxError) {all : Parser (List α)}
    (hall : P all) : P (bracketed close unclosed all) := by
  apply h.bind (h.accept _)
  intro found
  cases found with
  | true => exact h.pure _
  | false => exact h.bind hall fun found => h.bind (h.expect _ _) fun _ => h.pure _

/-!
### Primaries and chains
-/

theorem name : P name := by
  apply h.bind (h.take? _)
  intro found
  cases found with
  | some text => exact h.bind (h.build _) fun t => h.pure _
  | none => exact h.pure _

/-- A literal is the terminal that has been looked at, and it is a node of its own. -/
theorem literal (t : Tree) : P (literal t) :=
  h.bind h.skip fun _ => h.bind (h.build _) fun _ => h.pure _

/-- A number that is too large is rejected without its terminal being taken. -/
theorem number (value? : Option Int64) : P (number value?) := by
  cases value? with
  | some value => exact h.literal _
  | none => exact h.reject _

section

variable {expr : Production} (hexpr : P expr)

include hexpr

/-- An entry needs a key, a colon and a value. -/
theorem entry : P (entry expr) :=
  h.bind (h.require hexpr _) fun _ => h.bind (h.expect _ _) fun _ =>
    h.bind (h.require hexpr _) fun _ => h.build _

/-- Which primary it is depends on the terminal that comes next, and there is one step for each kind. -/
theorem primary (bound : Nat) : P (primary bound expr) := by
  apply h.bind h.peek
  intro next
  split
  · exact h.bind h.skip fun _ => h.bind (h.require hexpr _) fun _ => h.bind (h.expect _ _) fun _ =>
      h.pure _
  · exact h.bind h.skip fun _ => h.bind (h.bracketed _ _ (h.elements _ (h.require hexpr _) bound))
      fun _ => h.bind (h.build _) fun _ => h.pure _
  · exact h.bind h.skip fun _ => h.bind (h.bracketed _ _ (h.elements _ (h.entry hexpr) bound))
      fun _ => h.bind (h.build _) fun _ => h.pure _
  · exact h.literal _
  · exact h.literal _
  · exact h.number _
  · exact h.literal _
  · exact h.name

/-- What is behind a dot is read as any primary is, and rejected then if it is no name. -/
theorem field (bound : Nat) : P (field bound expr) := by
  apply h.bind (h.require (h.primary hexpr bound) _)
  intro found
  split
  · exact h.pure _
  · exact h.reject _

/-- Whether an argument has a keyword shows behind its first expression. Its parts are the same whether the
    keyword is a name or is rejected for not being one. -/
theorem argument (keywordsOnly : Bool) : P (argument expr keywordsOnly) := by
  refine h.bind (h.require hexpr _) fun arg => h.bind (h.accept _) fun colon => ?_
  cases colon with
  | false =>
      cases keywordsOnly with
      | true => exact h.reject _
      | false => exact h.pure _
  | true =>
      have value : P (do
          let value ← Parser.require expr .keywordValue
          return Argument.keyword (← Parser.build (.keywordArg arg value))) :=
        h.bind (h.require hexpr _) fun _ => h.bind (h.build _) fun _ => h.pure _
      cases isName : arg.isName with
      | true => simpa [isName] using value
      | false => simpa [isName] using h.bind (h.reject _) fun _ : Unit => value

theorem arguments (bound : Nat) : ∀ keywordsOnly, P (arguments expr bound keywordsOnly) := by
  induction bound with
  | zero => exact fun _ => h.bind (h.argument hexpr _) fun _ => h.pure _
  | succ bound ih =>
      intro keywordsOnly
      refine h.bind (h.argument hexpr _) fun first => h.bind (h.continues _) fun more => ?_
      cases more with
      | true => exact h.bind (ih _) fun _ => h.pure _
      | false => exact h.pure _

theorem application (bound : Nat) (callee : Tree) : P (application bound expr callee) :=
  h.bind (h.bracketed _ _ (h.arguments hexpr bound _)) fun _ => h.build _

theorem subscript (target : Tree) : P (subscript expr target) :=
  h.bind (h.require hexpr _) fun _ => h.bind (h.expect _ _) fun _ => h.build _

/-- The induction is on how many more links the loop may read. Each kind of link goes on with the loop. -/
theorem links (bound : Nat) : ∀ object, P (links expr bound object) := by
  induction bound with
  | zero => exact fun _ => h.pure _
  | succ bound ih =>
      intro object
      apply h.bind (h.take? _)
      intro link
      rcases link with _ | ⟨_ | _ | _⟩
      · exact h.pure _
      · exact h.bind (h.field hexpr _) fun _ => h.bind (h.build _) fun _ => ih _
      · exact h.bind (h.application hexpr _ _) fun _ => ih _
      · exact h.bind (h.subscript hexpr _) fun _ => ih _

/-- Links are read behind a name only. -/
theorem chain (bound : Nat) : P (chain bound expr) := by
  apply h.bind (h.primary hexpr bound)
  intro found
  cases found with
  | none => exact h.pure _
  | some first =>
      simp only
      split
      · exact h.bind (h.links hexpr bound first) fun _ => h.pure _
      · exact h.pure _

/-!
### Operators
-/

theorem unary (bound : Nat) : P (unary bound expr) := by
  apply h.bind (h.take? _)
  intro op
  cases op with
  | none => exact h.chain hexpr bound
  | some op =>
      exact h.bind (h.require (h.chain hexpr bound) _) fun _ => h.bind (h.build _) fun _ => h.pure _

end

/-- All five levels that group to the left are made of the same loop. The induction is on how many more operands
    it may read. -/
theorem leftLevel {ω : Type} (op? : Terminal → Option ω) (node : ω → Tree → Tree → Tree)
    {operand : Production} (hoperand : P operand) (unfinished : SyntaxError) (bound : Nat) :
    P (leftLevel op? node operand unfinished bound) := by
  apply h.bind hoperand
  intro first
  induction bound generalizing first with
  | zero => exact h.pure _
  | succ bound ih =>
      apply h.bind (h.take? _)
      intro op
      cases op with
      | none => exact h.pure _
      | some op =>
          exact h.bind (h.leftOperand _) fun _ => h.bind (h.require hoperand _) fun _ =>
            h.bind (h.build _) fun _ => ih _

section

variable {expr : Production} (hexpr : P expr)

include hexpr

theorem multiplicative (bound : Nat) : P (multiplicative bound expr) :=
  h.leftLevel _ _ (h.unary hexpr bound) _ bound

theorem additive (bound : Nat) : P (additive bound expr) :=
  h.leftLevel _ _ (h.multiplicative hexpr bound) _ bound

/-- For `not in` the operands are those of every other comparison, behind one more terminal. -/
theorem relational (bound : Nat) : P (relational bound expr) := by
  refine h.bind (h.additive hexpr bound) fun lhs => h.bind (h.take? _) fun op => ?_
  cases op with
  | none => exact h.pure _
  | some op =>
      have operands : P (do
          let left ← Parser.leftOperand lhs
          let right ← Parser.require (Grammar.additive bound expr) .relationalOperand
          return some (← Parser.build (.relational op left right))) :=
        h.bind (h.leftOperand _) fun _ => h.bind (h.require (h.additive hexpr bound) _) fun _ =>
          h.bind (h.build _) fun _ => h.pure _
      by_cases member : op = .notMember
      · simpa [member] using h.bind (h.expect _ _) fun _ => member ▸ operands
      · simpa [member] using operands

theorem equality (bound : Nat) : P (equality bound expr) := by
  refine h.bind (h.relational hexpr bound) fun lhs => h.bind (h.take? _) fun op => ?_
  cases op with
  | none => exact h.pure _
  | some op =>
      exact h.bind (h.leftOperand _) fun _ => h.bind (h.require (h.relational hexpr bound) _) fun _ =>
        h.bind (h.build _) fun _ => h.pure _

theorem conjunction (bound : Nat) : P (conjunction bound expr) :=
  h.leftLevel _ _ (h.equality hexpr bound) _ bound

theorem disjunction (bound : Nat) : P (disjunction bound expr) :=
  h.leftLevel _ _ (h.conjunction hexpr bound) _ bound

theorem conditional (bound : Nat) : P (conditional bound expr) := by
  refine h.bind (h.disjunction hexpr bound) fun condition => h.bind (h.accept _) fun question => ?_
  cases question with
  | true =>
      exact h.bind (h.leftOperand _) fun _ => h.bind (h.require hexpr _) fun _ =>
        h.bind (h.expect _ _) fun _ => h.bind (h.require hexpr _) fun _ =>
        h.bind (h.build _) fun _ => h.pure _
  | false => exact h.pure _

/-- An assignment without a target is rejected, and so is one to a target that is no name. -/
theorem assignment (bound : Nat) : P (assignment bound expr) := by
  refine h.bind (h.conditional hexpr bound) fun lhs => h.bind (h.take? _) fun op => ?_
  cases op with
  | none => exact h.pure _
  | some op =>
      cases lhs with
      | none => exact h.reject _
      | some target =>
          have value : P (do
              let value ← Parser.require expr .assignmentValue
              return some (← Parser.build (.assignment op target value))) :=
            h.bind (h.require hexpr _) fun _ => h.bind (h.build _) fun _ => h.pure _
          cases isName : target.isName with
          | true => simpa [isName] using value
          | false => simpa [isName] using h.bind (h.reject _) fun _ : Unit => value

end

/-- The induction is on how deeply expressions may nest: with a bound of zero nothing is read. -/
theorem expression (bound : Nat) : P (expression bound) := by
  induction bound with
  | zero => exact h.pure _
  | succ bound ih => exact h.assignment ih (bound + 1)

/-!
### Statements
-/

/-- A body reads statements until there is none, and then builds what holds them. -/
theorem body {statement : Production} (hstatement : P statement) (bound : Nat) :
    P (body statement bound) := by
  have statements : P (statements statement bound) := by
    induction bound with
    | zero => exact h.pure _
    | succ bound ih =>
        apply h.bind hstatement
        intro found
        cases found with
        | none => exact h.pure _
        | some first => exact h.bind ih fun _ => h.pure _
  apply h.bind statements
  intro all
  cases all with
  | nil => exact h.build _
  | cons first others => exact h.build _

section

variable {expr : Production} (hexpr : P expr) {body : Parser Tree} (hbody : P body)

include hexpr hbody

/-- The loop goes on behind each `elif`. -/
theorem clauses (bound : Nat) : P (clauses expr body bound) := by
  have clause : P (clauses.clause expr body) :=
    h.bind (h.require hexpr _) fun _ => h.bind hbody fun _ => h.build _
  induction bound with
  | zero => exact h.bind clause fun _ => h.pure _
  | succ bound ih =>
      refine h.bind clause fun first => h.bind (h.accept _) fun more => ?_
      cases more with
      | true => exact h.bind ih fun _ => h.pure _
      | false => exact h.pure _

theorem choice (bound : Nat) : P (choice expr body bound) := by
  have otherwise : P (otherwise body) := by
    apply h.bind (h.accept _)
    intro found
    cases found with
    | true => exact h.bind hbody fun _ => h.pure _
    | false => exact h.pure _
  exact h.bind (h.clauses hexpr hbody bound) fun _ => h.bind otherwise fun _ =>
    h.bind (h.expect _ _) fun _ => h.build _

theorem loop (bound : Nat) : P (loop expr body bound) := by
  have loopVariables : P (loopVariables bound) := by
    induction bound with
    | zero => exact h.bind (h.require h.name _) fun _ => h.pure _
    | succ bound ih =>
        refine h.bind (h.require h.name _) fun first => h.bind (h.accept _) fun more => ?_
        cases more with
        | true => exact h.bind ih fun _ => h.pure _
        | false => exact h.pure _
  exact h.bind loopVariables fun _ => h.bind (h.expect _ _) fun _ => h.bind (h.require hexpr _) fun _ =>
    h.bind hbody fun _ => h.bind (h.expect _ _) fun _ => h.build _

end

/-- The induction is on how deeply statements may nest; the statements of a body nest one deeper. -/
theorem statement (bound : Nat) : P (statement bound) := by
  induction bound with
  | zero => exact h.pure _
  | succ bound ih =>
      apply h.bind (h.take? _)
      intro opening
      rcases opening with _ | ⟨_ | _ | kind⟩
      · exact h.expression _
      · exact h.bind (h.choice (h.expression _) (h.body ih _) _) fun _ => h.pure _
      · exact h.bind (h.loop (h.expression _) (h.body ih _) _) fun _ => h.pure _
      · exact h.bind (h.build _) fun _ => h.pure _

/-- A program is a body, and nothing may be left behind it. -/
theorem program (bound : Nat) : P (program bound) := by
  refine h.bind (h.body (h.statement bound) bound) fun root => h.bind h.peek fun next => ?_
  cases next with
  | none => exact h.pure _
  | some t => exact h.reject _

end Parser.Compositional

end BuildScript
