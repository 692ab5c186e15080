/-
Module: BuildScript.Proofs.Spelling.Refusal
Layer: proofs about the spelling
Purpose: Which of the programs that are read have no source text. Most of what a spelling can fail at does
  not occur in a tree that a source is read as; what is left is an operand that is not there, a name spelt
  like a reserved word, and a statement that would be read as more of the expression in front of it.
Main exports: Tree.lacksOperand, Tree.Continues, Tree.Glued, hingesOn_source, source_eq_unspellable_iff
-/
import BuildScript.Proofs.Tree.Schema

namespace BuildScript

namespace Tree

/-!
### Obstacles
-/

/-- Whether an operand of the construct is not there. -/
@[simp]
def lacksOperand : Tree → Bool
  | .logical _ .empty _ | .arithmetic _ .empty _ | .relational _ .empty _ | .ternary .empty _ _ => true
  | _ => false

/-- Whether the construct is a name spelt like a reserved word. -/
@[simp]
def isReservedName : Tree → Bool
  | .name text => isReserved text
  | _ => false

/-- The text of the statement, taken by itself, would be read as more of an expression in front of it. -/
def Continues (t : Tree) : Prop :=
  ∃ text, t.spelling = .ok text ∧ isContinuation text = true

/-- The first statement of the body would be read as more of an expression in front of it. -/
def OpensContinuing (body : Tree) : Prop :=
  ∃ first others, body = .sequence (first :: others) ∧ first.Continues

/-- Two parts of the construct would be read as one expression: statements of a sequence, or what stands at
    the head of a clause or a loop and the first statement of its body. -/
@[simp]
def Glued : Tree → Prop
  | .sequence statements =>
      ∃ first second, [first, second] <:+: statements ∧ first.endsInExpression = true ∧ second.Continues
  | .clause _ body | .foreach _ _ body => body.OpensContinuing
  | _ => False

/-- Nothing about the construct itself stands in the way of its text. -/
structure Clear (t : Tree) : Prop where
  operands : t.lacksOperand = false
  word : t.isReservedName = false
  apart : ¬ t.Glued

/-!
### Verdicts
-/

/-- What is written comes out if the condition holds, and is refused if not. -/
structure HingesOn {α : Type} (x : Spelling α) (p : Prop) : Prop where
  written : p → ∃ a, x = .ok a
  refused : ¬ p → x = Tree.refused

namespace HingesOn

variable {α β : Type} {x : Spelling α} {f : α → Spelling β} {p q : Prop}

/-- What is written without a condition hinges on nothing. -/
theorem pure (a : α) : HingesOn (Pure.pure a : Spelling α) True where
  written _ := ⟨a, rfl⟩
  refused h := absurd trivial h

/-- What is refused cannot be written on any condition. -/
theorem never : HingesOn (Tree.refused : Spelling α) False where
  written h := h.elim
  refused _ := rfl

theorem congr (h : HingesOn x p) (same : p ↔ q) : HingesOn x q where
  written hq := h.written (same.mpr hq)
  refused hq := h.refused fun hp => hq (same.mp hp)

/-- One step after the other comes out if both do; `q` may use what the first has given. -/
theorem bind (h : HingesOn x p) (next : ∀ a, x = .ok a → HingesOn (f a) q) : HingesOn (x >>= f) (p ∧ q) where
  written both := by
    obtain ⟨a, first⟩ := h.written both.1
    rw [first]
    exact (next a first).written both.2
  refused neither := by
    by_cases hp : p
    · obtain ⟨a, first⟩ := h.written hp
      rw [first]
      exact (next a first).refused fun hq => neither ⟨hp, hq⟩
    · rw [h.refused hp]
      rfl

/-- A step that changes only the form of what is written. -/
theorem map (h : HingesOn x p) (g : α → β) : HingesOn (x >>= fun a => Pure.pure (g a)) p :=
  (h.bind fun a _ => .pure (g a)).congr (iff_of_eq (and_true p))

end HingesOn

/-- Nothing in the tree stands in the way of its text. -/
abbrev Spellable (t : Tree) : Prop :=
  t.Throughout Clear

/-- Whether the tree is written in its role hinges on nothing in it being in the way, and on a body behind an
    expression not carrying it on. -/
def Role.Verdict : Role → Tree → Prop
  | .body, t => ∀ depth after, HingesOn (t.body depth after)
      (t.Spellable ∧ ¬ (after = true ∧ t.OpensContinuing))
  | .statement, t => ∀ depth, HingesOn (t.statement depth) t.Spellable ∧
      ∀ lines, t.statement depth = .ok lines → (areContinuation lines = true ↔ t.Continues)
  | .clause, t => ∃ predicate body, t = .clause predicate body ∧
      HingesOn predicate.bare predicate.Spellable ∧ ∀ depth, HingesOn (body.body depth true)
        (body.Spellable ∧ ¬ body.OpensContinuing)
  | .expression, t => HingesOn t.bare t.Spellable
  | .leftOperand, t => HingesOn t.bare (t ≠ .empty ∧ t.Spellable)
  | .chained, t => t.checkChain = .ok () ∧ HingesOn t.bare t.Spellable
  | .name, t => HingesOn t.plainName t.Spellable
  | .keywordArg, t => ∃ key value, t = .keywordArg key value ∧
      HingesOn key.plainName key.Spellable ∧ HingesOn value.bare value.Spellable
  | .entry, t => ∃ key value, t = .keyValue key value ∧
      HingesOn key.bare key.Spellable ∧ HingesOn value.bare value.Spellable

theorem clear_iff {t : Tree} : t.Clear ↔ t.lacksOperand = false ∧ t.isReservedName = false ∧ ¬ t.Glued :=
  ⟨fun h => ⟨h.operands, h.word, h.apart⟩, fun ⟨operands, word, apart⟩ => ⟨operands, word, apart⟩⟩

theorem spellable_iff {t : Tree} : t.Spellable ↔
    (t.lacksOperand = false ∧ t.isReservedName = false ∧ ¬ t.Glued) ∧ ∀ r ∈ t.roles, r.2.Spellable :=
  throughout_iff.trans (and_congr clear_iff forall_mem_parts)

/-!
### Words and literals
-/

/-- A word is written unless it is reserved. -/
theorem hingesOn_word (text : String) : HingesOn (word text) (isReserved text = false) := by
  unfold word
  split
  · rename_i reserved
    exact HingesOn.never.congr (by simp [reserved])
  · rename_i free
    exact (HingesOn.pure _).congr (by simpa using free)

/-- No number of a complete tree is without a text. -/
theorem exists_numeral {value : Int64} (complete : (Tree.number value).isComplete = true) :
    ∃ piece, numeral value = .ok piece := by
  simp only [isComplete, Bool.not_eq_true', decide_eq_false_iff_not] at complete
  exact ⟨_, if_neg complete⟩

/-- No string of a complete tree is without a text. -/
theorem exists_quoted {content : String} (complete : (Tree.string content).isComplete = true) :
    ∃ piece, quoted content = .ok piece := by
  obtain ⟨quoting, fits⟩ := Option.isSome_iff_exists.mp complete
  exact ⟨_, by rw [quoted, fits]⟩

/-- Nothing but a chain has anything put behind it in a tree that fits. -/
theorem checkChain_of_isChain {t : Tree} (chain : t.isChain = true) : t.checkChain = .ok () := by
  cases t <;> first | rfl | cases chain

/-!
### Expressions
-/

/-- Rows of trees with a role each. -/
theorem hingesOn_bares {ts : List Tree} (verdicts : ∀ t ∈ ts, Role.expression.Verdict t) :
    HingesOn (bares ts) (∀ t ∈ ts, t.Spellable) := by
  induction ts with
  | nil => exact (HingesOn.pure _).congr (by simp)
  | cons t ts ih =>
      obtain ⟨first, others⟩ := List.forall_mem_cons.mp verdicts
      rw [bares]
      exact (HingesOn.bind first fun _ _ => (ih others).map _).congr List.forall_mem_cons.symm

/-- Entries are written when all of them can be. -/
theorem hingesOn_dictionaryEntries {ts : List Tree} (verdicts : ∀ t ∈ ts, Role.entry.Verdict t) :
    HingesOn (dictionaryEntries ts) (∀ t ∈ ts, t.Spellable) := by
  induction ts with
  | nil => exact (HingesOn.pure _).congr (by simp)
  | cons t ts ih =>
      obtain ⟨⟨key, value, rfl, left, right⟩, others⟩ := List.forall_mem_cons.mp verdicts
      rw [dictionaryEntries]
      refine (left.bind fun _ _ => right.bind fun _ _ => (ih others).map _).congr ?_
      simp [spellable_iff (t := .keyValue key value), roles, and_assoc]

/-- Keyword arguments are written when all of them can be. -/
theorem hingesOn_keywordArgs {ts : List Tree} (verdicts : ∀ t ∈ ts, Role.keywordArg.Verdict t) :
    HingesOn (keywordArgs ts) (∀ t ∈ ts, t.Spellable) := by
  induction ts with
  | nil => exact (HingesOn.pure _).congr (by simp)
  | cons t ts ih =>
      obtain ⟨⟨key, value, rfl, left, right⟩, others⟩ := List.forall_mem_cons.mp verdicts
      rw [keywordArgs]
      refine (left.bind fun _ _ => right.bind fun _ _ => (ih others).map _).congr ?_
      simp [spellable_iff (t := .keywordArg key value), roles, and_assoc]

/-- Loop variables are written when none of them is reserved. -/
theorem hingesOn_names {ts : List Tree} (verdicts : ∀ t ∈ ts, Role.name.Verdict t) :
    HingesOn (ts.mapM plainName) (∀ t ∈ ts, t.Spellable) := by
  induction ts with
  | nil => exact (HingesOn.pure _).congr (by simp)
  | cons t ts ih =>
      obtain ⟨first, others⟩ := List.forall_mem_cons.mp verdicts
      rw [List.mapM_cons]
      exact (HingesOn.bind first fun _ _ => (ih others).map _).congr List.forall_mem_cons.symm

/-- What has to be there is no less well off than what may be absent. -/
theorem verdict_leftOperand {t : Tree} (fits : Fits .expression t) (verdict : Role.expression.Verdict t) :
    Role.leftOperand.Verdict t := by
  have there : t ≠ .empty := by
    rintro rfl
    cases fits.1
  exact HingesOn.congr verdict (by simp [there])

/-- An expression comes out if its parts do, it is no reserved word, and none of its operands is absent. -/
theorem hingesOn_bare {t : Tree} (fits : Fits .expression t) (verdicts : ∀ r ∈ t.roles, r.1.Verdict r.2) :
    HingesOn t.bare t.Spellable := by
  have complete := fits.isComplete
  have spellable := spellable_iff (t := t)
  cases t with
  | assignment op target value =>
      simp only [roles, List.forall_mem_cons] at verdicts
      obtain ⟨left, right, -⟩ := verdicts
      rw [bare]
      refine (HingesOn.bind left fun _ _ => HingesOn.map right _).congr ?_
      simp [spellable, roles]
  | unary op operand =>
      simp only [roles, List.forall_mem_cons] at verdicts
      obtain ⟨inner, -⟩ := verdicts
      rw [bare]
      refine (HingesOn.map inner _).congr ?_
      simp [spellable, roles]
  | logical op lhs rhs =>
      simp only [roles, List.forall_mem_cons] at verdicts
      obtain ⟨left, right, -⟩ := verdicts
      rw [bare]
      refine (HingesOn.bind left fun _ _ => HingesOn.map right _).congr ?_
      cases lhs <;> simp [spellable, roles]
  | ternary condition yes no =>
      simp only [roles, List.forall_mem_cons] at verdicts
      obtain ⟨first, second, third, -⟩ := verdicts
      rw [bare]
      refine (HingesOn.bind first fun _ _ => HingesOn.bind second fun _ _ => HingesOn.map third _).congr ?_
      cases condition <;> simp [spellable, roles]
  | arithmetic op lhs rhs =>
      have parts := fits.parts
      simp only [roles, List.forall_mem_cons] at verdicts parts
      obtain ⟨left, right, -⟩ := verdicts
      have left : Role.leftOperand.Verdict lhs := by
        split_ifs at left parts with multiplicative
        · exact left
        · exact verdict_leftOperand parts.1 left
      rw [bare]
      refine (HingesOn.bind left fun _ _ => HingesOn.map right _).congr ?_
      cases lhs <;> simp [spellable, roles]
  | relational op lhs rhs =>
      have parts := fits.parts
      simp only [roles, List.forall_mem_cons] at verdicts parts
      obtain ⟨left, right, -⟩ := verdicts
      have left : Role.leftOperand.Verdict lhs := by
        split_ifs at left parts with negated
        · exact verdict_leftOperand parts.1 left
        · exact left
      rw [bare]
      refine (HingesOn.bind left fun _ _ => HingesOn.map right _).congr ?_
      cases lhs <;> simp [spellable, roles]
  | member object field =>
      simp only [roles, List.forall_mem_cons] at verdicts
      obtain ⟨⟨chain, left⟩, right, -⟩ := verdicts
      rw [bare, chain]
      refine (HingesOn.bind left fun _ _ => HingesOn.map right _).congr ?_
      simp [spellable, roles]
  | index target position =>
      simp only [roles, List.forall_mem_cons] at verdicts
      obtain ⟨⟨chain, left⟩, right, -⟩ := verdicts
      rw [bare, chain]
      refine (HingesOn.bind left fun _ _ => HingesOn.map right _).congr ?_
      simp [spellable, roles]
  | application callee args kwargs =>
      simp only [roles, List.cons_append, List.forall_mem_cons, List.forall_mem_append,
        List.forall_mem_map] at verdicts
      obtain ⟨⟨chain, left⟩, positional, keyword⟩ := verdicts
      rw [bare, chain]
      refine (HingesOn.bind left fun _ _ => (hingesOn_bares positional).bind fun _ _ =>
        (hingesOn_keywordArgs keyword).map _).congr ?_
      simp [spellable, roles, or_imp, forall_and]
  | name text =>
      rw [bare]
      refine ((hingesOn_word text).map _).congr ?_
      simp [spellable, roles]
  | bool value =>
      rw [bare]
      refine (HingesOn.pure _).congr ?_
      simp [spellable, roles]
  | number value =>
      obtain ⟨piece, written⟩ := exists_numeral complete
      rw [bare, written]
      refine (HingesOn.pure _).congr ?_
      simp [spellable, roles]
  | string content =>
      obtain ⟨piece, written⟩ := exists_quoted complete
      rw [bare, written]
      refine (HingesOn.pure _).congr ?_
      simp [spellable, roles]
  | array items =>
      simp only [roles, List.forall_mem_map] at verdicts
      rw [bare]
      refine ((hingesOn_bares verdicts).map _).congr ?_
      simp [spellable, roles]
  | dictionary entries =>
      simp only [roles, List.forall_mem_map] at verdicts
      rw [bare]
      refine ((hingesOn_dictionaryEntries verdicts).map _).congr ?_
      simp [spellable, roles]
  | _ => exact absurd fits.1 (by simp [Role.admits, isExpression])

/-!
### Statements by themselves
-/

/-- The text of a statement is that of its lines. -/
theorem spelling_of_statement {t : Tree} (fits : Fits .statement t) :
    t.spelling = (do let lines ← t.statement 0; return written lines) := by
  have program : t.asProgram = .sequence [t] := by
    rw [asProgram, sequenceBodies_of_isProper t fits.isProper]
    have admitted := fits.1
    cases t <;> first | rfl | cases admitted
  rw [spelling, program, body, statementLines, statementLines]
  cases t.statement 0 with
  | error => rfl
  | ok lines => simp [bind, Except.bind, pure, Except.pure]

/-- An expression is written on a line of its own. -/
theorem statement_of_isExpression {t : Tree} (expression : t.isExpression = true) (depth : Nat) :
    t.statement depth = (do let pieces ← t.bare; return [⟨depth, pieces⟩]) := by
  cases t <;> first | rfl | cases expression

theorem written_singleton (pieces : List Piece) : written [⟨0, pieces⟩] = Piece.join pieces := by
  simp [written, withLine, indentation, Line.text]

/-- A word other than `not` carries on no expression. -/
theorem isContinuation_word {word : Keyword} (other : word ≠ .kwNot) (rest : String) :
    isContinuation (word.text ++ rest) = false := by
  rw [isContinuation, List.any_eq_false]
  intro opening member
  rw [String.startsWith_string_iff, String.toList_append]
  simp only [continuations, List.mem_cons, List.not_mem_nil, or_false] at member
  rcases member with rfl | rfl | rfl | rfl | rfl <;> cases word <;> simp [Keyword.text] at other ⊢

/-- Every text of lines begins with its first line. -/
theorem exists_written_cons (line : Line) (lines : List Line) :
    ∃ rest, written (line :: lines) = indentation line.depth ++ line.text ++ rest := by
  induction lines using List.reverseRecOn with
  | nil => exact ⟨"", by simp [written, withLine]⟩
  | append_singleton lines last ih =>
      obtain ⟨rest, same⟩ := ih
      rw [← List.cons_append, written_concat, withLine, same]
      exact ⟨_, by simp only [String.append_assoc]; rfl⟩

/-- The lines of a statement that begin with a word other than `not`. -/
def Worded (depth : Nat) (lines : List Line) : Prop :=
  ∃ word pieces others, word ≠ Keyword.kwNot ∧ lines = ⟨depth, .keyword word :: pieces⟩ :: others

namespace Worded

variable {depth : Nat} {lines : List Line}

theorem text_eq (word : Keyword) (pieces : List Piece) :
    Line.text ⟨depth, .keyword word :: pieces⟩ = word.text ++ Piece.join pieces := by
  rw [Line.text, Piece.join, List.map_cons, String.join_cons]
  rfl

/-- Lines that begin with a keyword continue no expression. -/
theorem areContinuation (h : Worded depth lines) : areContinuation lines = false := by
  obtain ⟨word, pieces, others, other, rfl⟩ := h
  rw [Tree.areContinuation, text_eq]
  exact isContinuation_word other _

/-- A text that begins with a keyword continues no expression. -/
theorem isContinuation_written (h : Worded 0 lines) : isContinuation (written lines) = false := by
  obtain ⟨word, pieces, others, other, rfl⟩ := h
  obtain ⟨rest, same⟩ := exists_written_cons ⟨0, .keyword word :: pieces⟩ others
  have unindented : indentation 0 = "" := rfl
  rw [same, unindented, String.empty_append, text_eq, String.append_assoc]
  exact isContinuation_word other _

end Worded

/-- A statement continues an expression by its text. -/
theorem continues_iff {t : Tree} (fits : Fits .statement t) : t.Continues ↔
    ∃ lines, t.statement 0 = .ok lines ∧ isContinuation (written lines) = true := by
  rw [Continues, spelling_of_statement fits]
  constructor
  · rintro ⟨text, spelt, continues⟩
    obtain ⟨lines, inside, ⟨⟩⟩ := bind_eq_ok.mp spelt
    exact ⟨lines, inside, continues⟩
  · rintro ⟨lines, inside, continues⟩
    exact ⟨_, bind_eq_ok.mpr ⟨lines, inside, rfl⟩, continues⟩

/-- The text of an expression is the same however deep it stands. -/
theorem areContinuation_iff_of_isExpression {t : Tree} (fits : Fits .expression t) {depth : Nat}
    {lines : List Line} (h : t.statement depth = .ok lines) :
    areContinuation lines = true ↔ t.Continues := by
  rw [continues_iff fits.statement_of_expression, statement_of_isExpression fits.1]
  rw [statement_of_isExpression fits.1] at h
  obtain ⟨pieces, written, ⟨⟩⟩ := bind_eq_ok.mp h
  simp [written, bind, Except.bind, pure, Except.pure, written_singleton, areContinuation, Line.text]

/-!
### Statements and bodies
-/

/-- A statement that begins with a word carries on nothing. -/
theorem verdict_of_worded {t : Tree} (fits : Fits .statement t)
    (hinges : ∀ depth, HingesOn (t.statement depth) t.Spellable)
    (worded : ∀ depth lines, t.statement depth = .ok lines → Worded depth lines) :
    Role.statement.Verdict t := by
  refine fun depth => ⟨hinges depth, fun lines h => ?_⟩
  rw [(worded depth lines h).areContinuation, continues_iff fits]
  simp only [Bool.false_eq_true, false_iff, not_exists, not_and]
  intro lines h
  rw [(worded 0 lines h).isContinuation_written]
  exact Bool.false_ne_true

/-- Clauses are written when all of them can be. -/
theorem hingesOn_clauseLines {ts : List Tree} (verdicts : ∀ t ∈ ts, Role.clause.Verdict t) (depth : Nat)
    (word : Keyword) : HingesOn (clauseLines depth word ts) (∀ t ∈ ts, t.Spellable) := by
  induction ts generalizing word with
  | nil => exact (HingesOn.pure _).congr (by simp)
  | cons t ts ih =>
      obtain ⟨⟨predicate, body, rfl, head, inside⟩, others⟩ := List.forall_mem_cons.mp verdicts
      rw [clauseLines]
      refine (head.bind fun _ _ => (inside (depth + 1)).bind fun _ _ => (ih others _).map _).congr ?_
      simp only [List.forall_mem_cons, spellable_iff (t := .clause predicate body), lacksOperand, isReservedName,
        Glued, roles, true_and]
      tauto

/-- A last branch is written when it can be, and its absence always. -/
theorem hingesOn_elseLines {body? : Option Tree} (verdicts : ∀ t ∈ body?.toList, Role.body.Verdict t)
    (depth : Nat) : HingesOn (elseLines depth body?) (∀ t ∈ body?.toList, t.Spellable) := by
  cases body? with
  | none => exact (HingesOn.pure _).congr (by simp)
  | some body =>
      rw [elseLines]
      have verdict := List.forall_mem_singleton.mp verdicts
      exact ((verdict (depth + 1) false).map _).congr (by simp)

/-- Some statement would be read as more of the expression in front of it, `after` telling whether one stands
    in front of the first. -/
def GluesOn : (after : Bool) → List Tree → Prop
  | _, [] => False
  | after, t :: ts => (after = true ∧ t.Continues) ∨ GluesOn t.endsInExpression ts

/-- A body continues the expression in front of it by its first statement. -/
theorem opensContinuing_cons {t : Tree} {ts : List Tree} :
    (sequence (t :: ts)).OpensContinuing ↔ t.Continues := by
  simp [OpensContinuing]

/-- In a sequence, a statement goes on with the first that stands behind it, or others further on do. -/
theorem glued_cons {t : Tree} {ts : List Tree} : (sequence (t :: ts)).Glued ↔
    (t.endsInExpression = true ∧ (sequence ts).OpensContinuing) ∨ (sequence ts).Glued := by
  simp only [Glued, List.infix_cons_iff, List.cons_prefix_cons, or_and_right, exists_or]
  refine or_congr ?_ Iff.rfl
  constructor
  · rintro ⟨first, second, ⟨rfl, next⟩, ends, continues⟩
    obtain ⟨others, rfl⟩ := next
    exact ⟨ends, second, others, rfl, continues⟩
  · rintro ⟨ends, second, others, same, continues⟩
    cases same
    exact ⟨t, second, ⟨rfl, others, rfl⟩, ends, continues⟩

/-- Statements glue on to what is in front of them or to each other. -/
theorem gluesOn_iff {after : Bool} {ts : List Tree} :
    GluesOn after ts ↔ (after = true ∧ (sequence ts).OpensContinuing) ∨ (sequence ts).Glued := by
  induction ts generalizing after with
  | nil => simp [GluesOn, OpensContinuing, Glued]
  | cons t ts ih => rw [GluesOn, ih, opensContinuing_cons, glued_cons]

/-- Statements are written when all of them can be and none glues on to an expression in front of it. -/
theorem hingesOn_statementLines {ts : List Tree} (verdicts : ∀ t ∈ ts, Role.statement.Verdict t)
    (depth : Nat) (after : Bool) : HingesOn (statementLines depth after ts)
      ((∀ t ∈ ts, t.Spellable) ∧ ¬ GluesOn after ts) := by
  induction ts generalizing after with
  | nil => exact (HingesOn.pure _).congr (by simp [GluesOn])
  | cons t ts ih =>
      obtain ⟨verdict, others⟩ := List.forall_mem_cons.mp verdicts
      obtain ⟨hinges, continues⟩ := verdict depth
      rw [statementLines]
      refine (hinges.bind (q := ¬ (after = true ∧ t.Continues) ∧ (∀ t ∈ ts, t.Spellable) ∧
        ¬ GluesOn t.endsInExpression ts) fun lines h => ?_).congr ?_
      · have read_on : (after && areContinuation lines) = true ↔ after = true ∧ t.Continues := by
          rw [Bool.and_eq_true, continues lines h]
        by_cases glued : after = true ∧ t.Continues
        · rw [if_pos (read_on.mpr glued)]
          exact HingesOn.never.congr (by simp [glued])
        · rw [if_neg (mt read_on.mp glued)]
          exact ((ih others _).map _).congr (by simp [glued])
      · simp only [List.forall_mem_cons, GluesOn]
        tauto

/-- A conditional stands and falls with its clauses and its last branch. -/
theorem verdict_conditional {clauses : List Tree} {otherwise : Option Tree}
    (fits : Fits .statement (.conditional clauses otherwise))
    (first : ∀ t ∈ clauses, Role.clause.Verdict t) (second : ∀ t ∈ otherwise.toList, Role.body.Verdict t) :
    Role.statement.Verdict (.conditional clauses otherwise) := by
  have nonempty : clauses.isEmpty = false := Bool.not_eq_true' _ |>.mp fits.isComplete
  refine verdict_of_worded fits (fun depth => ?_) fun depth lines h => ?_
  · rw [statement, if_neg (by simp [nonempty])]
    refine ((hingesOn_clauseLines first depth .kwIf).bind fun _ _ =>
      (hingesOn_elseLines second depth).map _).congr ?_
    simp [spellable_iff (t := .conditional clauses otherwise), roles, or_imp, forall_and]
  · obtain ⟨-, lines, others, head, -, rfl⟩ := conditional_eq_ok h
    cases clauses with
    | nil => cases nonempty
    | cons t ts =>
        obtain ⟨predicate, body, rfl, -⟩ := first t List.mem_cons_self
        simp only [clauseLines, bind_eq_ok] at head
        obtain ⟨pieces, -, inside, -, more, -, ⟨⟩⟩ := head
        exact ⟨.kwIf, _, _, by decide, rfl⟩

/-- A loop stands and falls with its variables, with what it runs over and with its body. -/
theorem verdict_foreach {vars : List Tree} {iterable body : Tree}
    (fits : Fits .statement (.foreach vars iterable body)) (first : ∀ t ∈ vars, Role.name.Verdict t)
    (second : Role.expression.Verdict iterable) (third : Role.body.Verdict body) :
    Role.statement.Verdict (.foreach vars iterable body) := by
  refine verdict_of_worded fits (fun depth => ?_) fun depth lines h => ?_
  · rw [statement]
    refine ((hingesOn_names first).bind fun _ _ => HingesOn.bind second fun _ _ =>
      (third (depth + 1) true).map _).congr ?_
    simp only [spellable_iff (t := .foreach vars iterable body), lacksOperand, isReservedName, Glued, roles,
      List.forall_mem_append, List.forall_mem_map, List.forall_mem_cons, true_and]
    tauto
  · simp only [statement, bind_eq_ok] at h
    obtain ⟨names, -, pieces, -, inside, -, ⟨⟩⟩ := h
    exact ⟨.kwForeach, _, _, by decide, rfl⟩

theorem verdict_jump {kind : Jump} (fits : Fits .statement (.jump kind)) :
    Role.statement.Verdict (.jump kind) := by
  refine verdict_of_worded fits (fun depth => ?_) fun depth lines h => ?_
  · refine (HingesOn.pure _).congr ?_
    simp [spellable_iff (t := .jump kind), roles]
  · cases h
    cases kind
    · exact ⟨.kwBreak, _, _, by decide, rfl⟩
    · exact ⟨.kwContinue, _, _, by decide, rfl⟩

/-- A body stands and falls with its statements and with what may glue them together. -/
theorem verdict_body {t : Tree} (fits : Fits .body t) (verdicts : ∀ r ∈ t.roles, r.1.Verdict r.2) :
    Role.body.Verdict t := by
  intro depth after
  cases t with
  | empty =>
      refine (HingesOn.pure _).congr ?_
      simp [spellable_iff (t := .empty), roles, OpensContinuing]
  | sequence statements =>
      simp only [roles, List.forall_mem_map] at verdicts
      rw [body]
      refine (hingesOn_statementLines verdicts depth after).congr ?_
      simp only [gluesOn_iff, spellable_iff (t := .sequence statements), lacksOperand, isReservedName, roles,
        List.forall_mem_map, true_and]
      tauto
  | _ => exact absurd fits.1 (by simp [Role.admits, isBody])

theorem verdict_statement {t : Tree} (fits : Fits .statement t)
    (verdicts : ∀ r ∈ t.roles, r.1.Verdict r.2) : Role.statement.Verdict t := by
  by_cases expression : t.isExpression = true
  · have fits : Fits .expression t := fits.of_admits expression
    refine fun depth => ⟨?_, fun lines h => areContinuation_iff_of_isExpression fits h⟩
    rw [statement_of_isExpression expression]
    exact (hingesOn_bare fits verdicts).map _
  · cases t with
    | conditional clauses otherwise =>
        simp only [roles, List.forall_mem_append, List.forall_mem_map] at verdicts
        exact verdict_conditional fits verdicts.1 verdicts.2
    | foreach vars iterable body =>
        simp only [roles, List.forall_mem_append, List.forall_mem_map, List.forall_mem_cons] at verdicts
        exact verdict_foreach fits verdicts.1 verdicts.2.1 verdicts.2.2.1
    | jump => exact verdict_jump fits
    | _ => exact absurd fits.1 expression

/-- What is written in a role comes out if its parts do and nothing about it is in the way. -/
theorem verdict_of_parts {t : Tree} {role : Role} (fits : Fits role t)
    (verdicts : ∀ r ∈ t.roles, r.1.Verdict r.2) : role.Verdict t := by
  cases role with
  | body => exact verdict_body fits verdicts
  | statement => exact verdict_statement fits verdicts
  | expression => exact hingesOn_bare fits verdicts
  | leftOperand =>
      by_cases expression : t.isExpression = true
      · have fits : Fits .expression t := fits.of_admits expression
        exact verdict_leftOperand fits (hingesOn_bare fits verdicts)
      · cases t with
        | empty => exact HingesOn.never.congr (by simp)
        | _ => exact absurd fits.1 expression
  | chained => exact ⟨checkChain_of_isChain fits.1, hingesOn_bare fits.expression_of_chained verdicts⟩
  | name =>
      cases t with
      | name text =>
          refine (hingesOn_word text).congr ?_
          simp [spellable_iff (t := .name text), roles]
      | _ => exact absurd fits.1 (by simp [Role.admits, isName])
  | clause =>
      cases t with
      | clause predicate body =>
          simp only [roles, List.forall_mem_cons] at verdicts
          exact ⟨predicate, body, rfl, verdicts.1, fun depth => (verdicts.2.1 depth true).congr (by simp)⟩
      | _ => exact absurd fits.1 (by simp [Role.admits])
  | keywordArg =>
      cases t with
      | keywordArg key value =>
          simp only [roles, List.forall_mem_cons] at verdicts
          exact ⟨key, value, rfl, verdicts.1, verdicts.2.1⟩
      | _ => exact absurd fits.1 (by simp [Role.admits])
  | entry =>
      cases t with
      | keyValue key value =>
          simp only [roles, List.forall_mem_cons] at verdicts
          exact ⟨key, value, rfl, verdicts.1, verdicts.2.1⟩
      | _ => exact absurd fits.1 (by simp [Role.admits])

/-- Whatever keeps to the schema is written exactly if it is spellable. -/
theorem verdict_of_fits {t : Tree} : ∀ {role : Role}, Fits role t → role.Verdict t := by
  induction t using inductionOnParts with
  | step t ih =>
      exact fun fits => verdict_of_parts fits fun r member =>
        ih r.2 (List.mem_map_of_mem member) (fits.parts r member)

end Tree

/-!
### Programs that are read
-/

open BuildScript.Tree

/-- Whether a program that is read has a source text hinges on nothing in its tree being in the way. -/
theorem hingesOn_source {source : String} {maxNodes : Option Nat} {ast : Ast}
    (parsed : parse source maxNodes = .ok ast) : HingesOn ast.source ast.tree.Spellable := by
  obtain ⟨t, fits, rfl, whole⟩ := exists_tree_of_parse parsed
  rw [source_toAst fits.1 fits.isProper, whole]
  exact ((verdict_of_fits fits 0 false).map _).congr (by simp)

/-- There are three obstacles, and each may occur anywhere in the tree. -/
theorem not_spellable_iff {t : Tree} : ¬ t.Spellable ↔
    (∃ x : Tree, x.OccursIn t ∧ x.lacksOperand = true) ∨
    (∃ text, (Tree.name text).OccursIn t ∧ isReserved text = true) ∨
    (∃ x : Tree, x.OccursIn t ∧ x.Glued) := by
  constructor
  · intro h
    simp only [Throughout, not_forall, clear_iff] at h
    obtain ⟨x, occurs, inTheWay⟩ := h
    by_cases operand : x.lacksOperand = true
    · exact .inl ⟨x, occurs, operand⟩
    by_cases word : x.isReservedName = true
    · cases x with
      | name text => exact .inr (.inl ⟨text, occurs, word⟩)
      | _ => cases word
    · refine .inr (.inr ⟨x, occurs, ?_⟩)
      by_contra apart
      exact inTheWay ⟨Bool.eq_false_iff.mpr operand, Bool.eq_false_iff.mpr word, apart⟩
  · rintro (⟨x, occurs, operand⟩ | ⟨text, occurs, word⟩ | ⟨x, occurs, glued⟩) spellable
    · rw [(spellable x occurs).operands] at operand
      cases operand
    · have free := (spellable _ occurs).word
      rw [isReservedName, word] at free
      cases free
    · exact (spellable x occurs).apart glued

/-- A program that is read has no source text exactly if an operand in it is not there, a name in it is spelt
    like a reserved word, or two parts of it would be read as one expression. Its strings, its numbers, and
    what members, indices and calls are put behind never stand in the way. -/
theorem source_eq_unspellable_iff {source : String} {maxNodes : Option Nat} {ast : Ast}
    (parsed : parse source maxNodes = .ok ast) :
    (ast.source = .error .unspellable ↔
      (∃ x : Tree, x.OccursIn ast.tree ∧ x.lacksOperand = true) ∨
      (∃ text, (Tree.name text).OccursIn ast.tree ∧ isReserved text = true) ∨
      (∃ x : Tree, x.OccursIn ast.tree ∧ x.Glued)) ∧
    ast.source ≠ .error .missing ∧
    (∀ content, (Tree.string content).OccursIn ast.tree → ∃ piece, quoted content = .ok piece) ∧
    (∀ value, (Tree.number value).OccursIn ast.tree → ∃ piece, numeral value = .ok piece) ∧
    ∀ x : Tree, x.OccursIn ast.tree → ∀ part, (Role.chained, part) ∈ x.roles → part.checkChain = .ok () := by
  obtain ⟨written, refused⟩ := hingesOn_source parsed
  obtain ⟨t, fits, -, rfl⟩ := exists_tree_of_parse parsed
  rw [← not_spellable_iff]
  refine ⟨⟨fun h spellable => ?_, refused⟩, fun h => ?_, fun content occurs => ?_, fun value occurs => ?_,
    fun x occurs part member => ?_⟩
  · obtain ⟨text, spelt⟩ := written spellable
    rw [h] at spelt
    cases spelt
  · by_cases spellable : ast.tree.Spellable
    · obtain ⟨text, spelt⟩ := written spellable
      rw [h] at spelt
      cases spelt
    · rw [refused spellable] at h
      cases h
  · exact exists_quoted (isComplete_of_isWellFormed (fits.2 _ occurs))
  · exact exists_numeral (isComplete_of_isWellFormed (fits.2 _ occurs))
  · exact checkChain_of_isChain (admits_of_isWellFormed (fits.2 x occurs) member)

/-- An array behind `true` is a statement of its own, but it begins like an index. -/
theorem source_eq_unspellable_array : ∃ ast, parse "true [a]" none = .ok ast ∧
    ast.source = .error .unspellable := by
  have read : readTree none "true [a]" = .ok (.sequence [.bool true, .array [.name "a"]]) := by
    cbv
  have parsed := parse_eq_ok.mpr ⟨_, read, rfl⟩
  have continues : isContinuation "[a]" = true := by
    simp [isContinuation, continuations, String.startsWith_string_iff]
  refine ⟨_, parsed, ?_⟩
  rw [(source_eq_unspellable_iff parsed).1, tree_toAst rfl none]
  exact .inr (.inr ⟨_, .self, .bool true, .array [.name "a"], List.infix_rfl, rfl, "[a]", rfl, continues⟩)

end BuildScript
