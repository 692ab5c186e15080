/-
Module: BuildScript.Proofs.Tree.Proper
Layer: proofs about trees
Purpose: What every tree has that the grammar derives, as far as it matters for writing the tree: its names
  are words, its bodies are sequences or empty, and no sequence and no list of loop variables is without
  an element. Such a tree is whole, and it is a program as it stands.
Main exports: Tree.isProper, asProgram_of_isProper, isWhole_of_isProper,
  IsProgram.isProper
-/
import BuildScript.Proofs.Grammar.Derivation
import BuildScript.Proofs.Source.Bytes
import BuildScript.Tree.Body
import BuildScript.Tree.Sexpr

namespace BuildScript

namespace Tree

/-- Whether the tree is a body: nothing, or statements in order. -/
def isBody : Tree → Bool
  | .empty | .sequence _ => true
  | _ => false

mutual
/-- Whether the names of the tree are words, its bodies are bodies, and its sequences and lists of loop
    variables have an element. -/
def isProper : Tree → Bool
  | .missing _ => false
  | .empty | .jump _ | .bool _ | .number _ | .string _ => true
  | .name text => Text.isWord text
  | .sequence statements => !statements.isEmpty && areProper statements
  | .array parts | .dictionary parts => areProper parts
  | .conditional clauses otherwise => areProper clauses && isProperElse otherwise
  | .clause predicate body => predicate.isProper && body.isBody && body.isProper
  | .foreach vars iterable body =>
      !vars.isEmpty && areProper vars && iterable.isProper && body.isBody && body.isProper
  | .application callee args kwargs => callee.isProper && areProper args && areProper kwargs
  | .unary _ operand => operand.isProper
  | .ternary condition yes no => condition.isProper && yes.isProper && no.isProper
  | .assignment _ a b | .logical _ a b | .arithmetic _ a b | .relational _ a b =>
      a.isProper && b.isProper
  | .member a b | .index a b | .keywordArg a b | .keyValue a b => a.isProper && b.isProper

/-- The same for each of the trees. -/
def areProper : List Tree → Bool
  | [] => true
  | t :: ts => t.isProper && areProper ts

/-- The same for the body of an `else`. -/
def isProperElse : Option Tree → Bool
  | none => true
  | some body => body.isBody && body.isProper
end

/-- Trees are proper when each of them is. -/
theorem areProper_iff {ts : List Tree} : areProper ts = true ↔ ∀ t ∈ ts, t.isProper = true := by
  induction ts with
  | nil => simp [areProper]
  | cons t ts ih => simp [areProper, ih]

/-- A body need not be made one. -/
theorem asBody_of_isBody {t : Tree} (body : t.isBody = true) : t.asBody = t := by
  cases t <;> first | rfl | cases body

/-!
### Proper trees as programs
-/

mutual

/-- In a proper tree all bodies are sequences or empty already. -/
theorem sequenceBodies_of_isProper : ∀ t : Tree, t.isProper = true → t.sequenceBodies = t
  | .missing _, _ | .empty, _ | .jump _, _ | .bool _, _ | .number _, _ | .string _, _ | .name _, _ => by
      simp only [sequenceBodies]
  | .sequence parts, h => by
      simp only [isProper, Bool.and_eq_true] at h
      simp only [sequenceBodies, sequenceBodiesAll_of_areProper parts h.2]
  | .array parts, h | .dictionary parts, h => by
      simp only [isProper] at h
      simp only [sequenceBodies, sequenceBodiesAll_of_areProper parts h]
  | .conditional clauses otherwise, h => by
      simp only [isProper, Bool.and_eq_true] at h
      simp only [sequenceBodies, sequenceBodiesAll_of_areProper clauses h.1,
        sequenceElse_of_isProperElse otherwise h.2]
  | .clause predicate body, h => by
      simp only [isProper, Bool.and_eq_true] at h
      obtain ⟨⟨first, isBody⟩, second⟩ := h
      simp only [sequenceBodies, sequenceBodies_of_isProper predicate first,
        sequenceBodies_of_isProper body second, asBody_of_isBody isBody]
  | .foreach vars iterable body, h => by
      simp only [isProper, Bool.and_eq_true] at h
      obtain ⟨⟨⟨⟨-, first⟩, second⟩, isBody⟩, third⟩ := h
      simp only [sequenceBodies, sequenceBodiesAll_of_areProper vars first,
        sequenceBodies_of_isProper iterable second, sequenceBodies_of_isProper body third,
        asBody_of_isBody isBody]
  | .application callee args kwargs, h => by
      simp only [isProper, Bool.and_eq_true] at h
      simp only [sequenceBodies, sequenceBodies_of_isProper callee h.1.1,
        sequenceBodiesAll_of_areProper args h.1.2, sequenceBodiesAll_of_areProper kwargs h.2]
  | .unary _ operand, h => by
      simp only [isProper] at h
      simp only [sequenceBodies, sequenceBodies_of_isProper operand h]
  | .ternary condition yes no, h => by
      simp only [isProper, Bool.and_eq_true] at h
      simp only [sequenceBodies, sequenceBodies_of_isProper condition h.1.1,
        sequenceBodies_of_isProper yes h.1.2, sequenceBodies_of_isProper no h.2]
  | .assignment _ a b, h | .logical _ a b, h | .arithmetic _ a b, h | .relational _ a b, h
  | .member a b, h | .index a b, h | .keywordArg a b, h | .keyValue a b, h => by
      simp only [isProper, Bool.and_eq_true] at h
      simp only [sequenceBodies, sequenceBodies_of_isProper a h.1, sequenceBodies_of_isProper b h.2]

theorem sequenceBodiesAll_of_areProper : ∀ ts : List Tree, areProper ts = true →
    sequenceBodiesAll ts = ts
  | [], _ => by simp only [sequenceBodiesAll]
  | t :: ts, h => by
      simp only [areProper, Bool.and_eq_true] at h
      simp only [sequenceBodiesAll, sequenceBodies_of_isProper t h.1, sequenceBodiesAll_of_areProper ts h.2]

theorem sequenceElse_of_isProperElse : ∀ body? : Option Tree, isProperElse body? = true →
    sequenceElse body? = body?
  | none, _ => by simp only [sequenceElse]
  | some body, h => by
      simp only [isProperElse, Bool.and_eq_true] at h
      simp only [sequenceElse, sequenceBodies_of_isProper body h.2, asBody_of_isBody h.1]

end

/-- A proper body is a program as it stands. -/
theorem asProgram_of_isProper {t : Tree} (body : t.isBody = true) (proper : t.isProper = true) :
    t.asProgram = t := by
  rw [asProgram, sequenceBodies_of_isProper t proper, asBody_of_isBody body]

mutual

/-- Nothing is missing from a proper tree. -/
theorem isWhole_of_isProper : ∀ t : Tree, t.isProper = true → t.isWhole = true
  | .missing _, h => by simp [isProper] at h
  | .empty, _ | .jump _, _ | .bool _, _ | .number _, _ | .string _, _ | .name _, _ => by
      simp only [isWhole]
  | .sequence parts, h => by
      simp only [isProper, Bool.and_eq_true] at h
      simp only [isWhole, areWhole_of_areProper parts h.2]
  | .array parts, h | .dictionary parts, h => by
      simp only [isProper] at h
      simp only [isWhole, areWhole_of_areProper parts h]
  | .conditional clauses otherwise, h => by
      simp only [isProper, Bool.and_eq_true] at h
      simp only [isWhole, areWhole_of_areProper clauses h.1, isWholeOption_of_isProperElse otherwise h.2,
        Bool.and_self]
  | .clause predicate body, h => by
      simp only [isProper, Bool.and_eq_true] at h
      simp only [isWhole, isWhole_of_isProper predicate h.1.1, isWhole_of_isProper body h.2,
        Bool.and_self]
  | .foreach vars iterable body, h => by
      simp only [isProper, Bool.and_eq_true] at h
      obtain ⟨⟨⟨⟨-, first⟩, second⟩, -⟩, third⟩ := h
      simp only [isWhole, areWhole_of_areProper vars first, isWhole_of_isProper iterable second,
        isWhole_of_isProper body third, Bool.and_self]
  | .application callee args kwargs, h => by
      simp only [isProper, Bool.and_eq_true] at h
      simp only [isWhole, isWhole_of_isProper callee h.1.1, areWhole_of_areProper args h.1.2,
        areWhole_of_areProper kwargs h.2, Bool.and_self]
  | .unary _ operand, h => by
      simp only [isProper] at h
      simp only [isWhole, isWhole_of_isProper operand h]
  | .ternary condition yes no, h => by
      simp only [isProper, Bool.and_eq_true] at h
      simp only [isWhole, isWhole_of_isProper condition h.1.1, isWhole_of_isProper yes h.1.2,
        isWhole_of_isProper no h.2, Bool.and_self]
  | .assignment _ a b, h | .logical _ a b, h | .arithmetic _ a b, h | .relational _ a b, h
  | .member a b, h | .index a b, h | .keywordArg a b, h | .keyValue a b, h => by
      simp only [isProper, Bool.and_eq_true] at h
      simp only [isWhole, isWhole_of_isProper a h.1, isWhole_of_isProper b h.2, Bool.and_self]

theorem areWhole_of_areProper : ∀ ts : List Tree, areProper ts = true → areWhole ts = true
  | [], _ => by simp only [areWhole]
  | t :: ts, h => by
      simp only [areProper, Bool.and_eq_true] at h
      simp only [areWhole, isWhole_of_isProper t h.1, areWhole_of_areProper ts h.2, Bool.and_self]

theorem isWholeOption_of_isProperElse : ∀ body? : Option Tree, isProperElse body? = true →
    isWholeOption body? = true
  | none, _ => by simp only [isWholeOption]
  | some body, h => by
      simp only [isProperElse, Bool.and_eq_true] at h
      simp only [isWholeOption, isWhole_of_isProper body h.2]

end

end Tree

/-!
### Derived trees
-/

namespace Grammar

open BuildScript.Tree

/-- Whether the tree of an argument is proper. -/
def Argument.isProper : Argument Tree → Bool
  | .positional value => value.isProper
  | .keyword arg => arg.isProper

/-- Whether the tree of an element is proper. -/
def Row.isProper : (row : Row) → row.Element → Bool
  | .items, t | .entries, t => Tree.isProper t
  | .arguments, arg => Argument.isProper arg

/-- A phrase is read as something proper, given that what it carries on is. -/
def Phrase.Proper : (phrase : Phrase) → phrase.Found → Prop
  | .level _, found | .statement, found => ∀ t, found = some t → t.isProper = true
  | .operands _ lhs, found =>
      (∀ t, lhs = some t → t.isProper = true) → ∀ t, found = some t → t.isProper = true
  | .links object, t => object.isProper = true → t.isProper = true
  | .element r _, e => r.isProper e = true
  | .row r _, es | .bracketed r, es => ∀ e ∈ es, r.isProper e = true
  | .statements, ts | .clauses, ts => areProper ts = true
  | .body, t => t.isBody = true ∧ t.isProper = true
  | .loopVariables, ts => ts ≠ [] ∧ areProper ts = true

/-- An operator adds nothing to be proper itself. -/
theorem isProper_node {g : Grouping} {t : Terminal} {node : Tree → Tree → Tree}
    (operator : g.node? t = some node) (a b : Tree) : (node a b).isProper = (a.isProper && b.isProper) := by
  unfold Grouping.node? at operator
  split at operator <;> cases operator <;> rw [isProper]

/-- An operand that is missing is proper, as long as one that is there would be. -/
theorem isProper_operandOf {lhs : Option Tree} (h : ∀ t, lhs = some t → t.isProper = true) :
    (operandOf lhs).isProper = true := by
  cases lhs with
  | none => rfl
  | some t => exact h t rfl

/-- Sorting arguments apart keeps each of them as it is. -/
theorem areProper_arguments {all : List (Argument Tree)} (h : ∀ arg ∈ all, arg.isProper = true) :
    areProper (all.filterMap Argument.positional?) = true ∧
      areProper (all.filterMap Argument.keyword?) = true := by
  simp only [areProper_iff, List.mem_filterMap]
  constructor
  · rintro t ⟨arg, member, found⟩
    have proper := h arg member
    cases arg <;> cases found
    exact proper
  · rintro t ⟨arg, member, found⟩
    have proper := h arg member
    cases arg <;> cases found
    exact proper

/-- What is derived from terminals whose names are words is proper, and so are the names left. -/
theorem Derives.proper_and_words {phrase : Phrase} {found : phrase.Found} {i o : List Terminal}
    (h : Derives phrase i found o) (words : ∀ text, .name text ∈ i → Text.isWord text = true) :
    phrase.Proper found ∧ ∀ text, .name text ∈ o → Text.isWord text = true := by
  induction h with
  | call args links args_ih links_ih =>
      obtain ⟨args_proper, words⟩ := args_ih fun text member => words text (List.mem_cons_of_mem _ member)
      obtain ⟨longer, words⟩ := links_ih words
      obtain ⟨positional, keyword⟩ := areProper_arguments args_proper
      refine ⟨fun proper => longer ?_, words⟩
      rw [isProper, proper, positional, keyword]
      rfl
  | operand operator right others right_ih others_ih =>
      obtain ⟨proper, words⟩ := right_ih fun text member => words text (List.mem_cons_of_mem _ member)
      obtain ⟨others_proper, words⟩ := others_ih words
      refine ⟨fun lhs_proper => others_proper fun t same => ?_, words⟩
      cases same
      rw [isProper_node operator, isProper_operandOf lhs_proper, proper _ rfl]
      rfl
  | compared its_level left right left_ih right_ih =>
      obtain ⟨left_proper, words⟩ := left_ih words
      obtain ⟨right_proper, words⟩ := right_ih fun text member =>
        words text (List.mem_append_right _ member)
      refine ⟨fun t same => ?_, words⟩
      cases same
      rw [isProper, isProper_operandOf left_proper, right_proper _ rfl]
      rfl
  | conditional left middle right left_ih middle_ih right_ih =>
      simp only [Phrase.Proper, Option.some.injEq, forall_eq', List.mem_cons] at left_ih middle_ih right_ih ⊢
      obtain ⟨left_proper, words⟩ := left_ih words
      obtain ⟨middle_proper, words⟩ := middle_ih fun text member => words text (.inr member)
      obtain ⟨right_proper, words⟩ := right_ih fun text member => words text (.inr member)
      refine ⟨?_, words⟩
      rw [isProper, isProper_operandOf left_proper, middle_proper, right_proper]
      rfl
  | _ => simp_all [Phrase.Proper, isProper, areProper, Row.isProper, Argument.isProper, isProperElse, isBody,
      areProper_iff]

/-- A program whose names are words is a proper body. -/
theorem IsProgram.isProper {input : List Terminal} {t : Tree} (program : IsProgram input t)
    (words : ∀ text, .name text ∈ input → Text.isWord text = true) :
    t.isBody = true ∧ t.isProper = true :=
  (Derives.proper_and_words program words).1

end Grammar

end BuildScript
