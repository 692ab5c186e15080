/-
Module: BuildScript.Proofs.Spelling.Conformance
Layer: proofs about the spelling
Purpose: What has a spelling keeps to the schema. The writing of a construct refuses every part that is out
  of place, so nothing needs to be known about a tree beforehand but what a text cannot show: whether its
  names are words, whether a loop has a variable, and whether a body without a statement is an empty
  sequence.
Main exports: Tree.Role.Written, written_parts, Tree.Readable, fits_of_written, fits_of_spelling,
  readTree_spelling
-/
import BuildScript.Proofs.Tree.Schema

namespace BuildScript

namespace Tree

/-!
### Writing in a role
-/

/-- The tree is written in its role. -/
def Role.Written : Role → Tree → Prop
  | .body, t => ∃ depth after lines, t.body depth after = .ok lines
  | .statement, t => ∃ depth lines, t.statement depth = .ok lines
  | .clause, t => ∃ predicate body, t = .clause predicate body ∧ (∃ ps, predicate.bare = .ok ps) ∧
      ∃ depth after lines, body.body depth after = .ok lines
  | .expression, t | .leftOperand, t => ∃ ps, t.bare = .ok ps
  | .chained, t => t.checkChain = .ok () ∧ ∃ ps, t.bare = .ok ps
  | .name, t => ∃ p, t.plainName = .ok p
  | .keywordArg, t => ∃ key value, t = .keywordArg key value ∧ (∃ p, key.plainName = .ok p) ∧
      ∃ ps, value.bare = .ok ps
  | .entry, t => ∃ key value, t = .keyValue key value ∧ (∃ ps, key.bare = .ok ps) ∧
      ∃ ps, value.bare = .ok ps

/-- Expressions in a row have each been written as one. -/
theorem written_of_bares {ts : List Tree} {groups : List (List Piece)} (h : bares ts = .ok groups) :
    ∀ t ∈ ts, Role.expression.Written t := by
  induction ts generalizing groups with
  | nil => exact List.forall_mem_nil _
  | cons t ts ih =>
      simp only [bares, bind_eq_ok] at h
      obtain ⟨first, one, others, rest, -⟩ := h
      exact List.forall_mem_cons.mpr ⟨⟨first, one⟩, ih rest⟩

/-- Only pairs of a key and a value are written as entries. -/
theorem written_of_dictionaryEntries {ts : List Tree} {groups : List (List Piece)}
    (h : dictionaryEntries ts = .ok groups) : ∀ t ∈ ts, Role.entry.Written t := by
  induction ts generalizing groups with
  | nil => exact List.forall_mem_nil _
  | cons t ts ih =>
      cases t with
      | keyValue key value =>
          simp only [dictionaryEntries, bind_eq_ok] at h
          obtain ⟨left, one, right, other, others, rest, -⟩ := h
          exact List.forall_mem_cons.mpr ⟨⟨key, value, rfl, ⟨left, one⟩, right, other⟩, ih rest⟩
      | missing gap => cases gap <;> cases h
      | _ => cases h

/-- Only keyword arguments are written as such. -/
theorem written_of_keywordArgs {ts : List Tree} {groups : List (List Piece)}
    (h : keywordArgs ts = .ok groups) : ∀ t ∈ ts, Role.keywordArg.Written t := by
  induction ts generalizing groups with
  | nil => exact List.forall_mem_nil _
  | cons t ts ih =>
      cases t with
      | keywordArg key value =>
          simp only [keywordArgs, bind_eq_ok] at h
          obtain ⟨left, one, right, other, others, rest, -⟩ := h
          exact List.forall_mem_cons.mpr ⟨⟨key, value, rfl, ⟨left, one⟩, right, other⟩, ih rest⟩
      | missing gap => cases gap <;> cases h
      | _ => cases h

/-- Only names are written where nothing but a name may stand. -/
theorem written_of_names {ts : List Tree} {names : List Piece} (h : ts.mapM plainName = .ok names) :
    ∀ t ∈ ts, Role.name.Written t := by
  induction ts generalizing names with
  | nil => exact List.forall_mem_nil _
  | cons t ts ih =>
      simp only [List.mapM_cons, bind_eq_ok] at h
      obtain ⟨first, one, others, rest, -⟩ := h
      exact List.forall_mem_cons.mpr ⟨⟨first, one⟩, ih rest⟩

/-- Statements in a row have each been written as one. -/
theorem written_of_statementLines {ts : List Tree} {depth : Nat} {after : Bool} {lines : List Line}
    (h : statementLines depth after ts = .ok lines) : ∀ t ∈ ts, Role.statement.Written t := by
  induction ts generalizing after lines with
  | nil => exact List.forall_mem_nil _
  | cons t ts ih =>
      obtain ⟨first, others, one, -, rest, -⟩ := statementLines_cons_eq_ok h
      exact List.forall_mem_cons.mpr ⟨⟨depth, first, one⟩, ih rest⟩

/-- Only clauses are written behind the words of a conditional. -/
theorem written_of_clauseLines {ts : List Tree} {depth : Nat} {word : Keyword} {lines : List Line}
    (h : clauseLines depth word ts = .ok lines) : ∀ t ∈ ts, Role.clause.Written t := by
  induction ts generalizing word lines with
  | nil => exact List.forall_mem_nil _
  | cons t ts ih =>
      obtain ⟨predicate, body, ps, inside, others, same, choice, inner, rest, -⟩ :=
        clauseLines_cons_eq_ok h
      have clause : Role.clause.Written t := ⟨predicate, body, same, ⟨ps, choice⟩, _, _, inside, inner⟩
      exact List.forall_mem_cons.mpr ⟨clause, ih rest⟩

theorem written_of_elseLines {body? : Option Tree} {depth : Nat} {lines : List Line}
    (h : elseLines depth body? = .ok lines) : ∀ t ∈ body?.toList, Role.body.Written t := by
  cases body? with
  | none => simp
  | some body =>
      obtain ⟨inside, inner, -⟩ := bind_eq_ok.mp h
      simpa using ⟨_, _, inside, inner⟩

/-!
### Parts of what is written
-/

/-- What is written as a name is an expression, too. -/
theorem exists_bare_of_plainName {t : Tree} {p : Piece} (h : t.plainName = .ok p) : t.bare = .ok [p] := by
  obtain ⟨text, rfl, rfl, free⟩ := plainName_eq_ok h
  rw [bare, word, if_neg (Bool.eq_false_iff.mp free)]
  rfl

/-- The parts of an expression are written in their roles when it is. -/
theorem written_parts_of_bare {t : Tree} {ps : List Piece} (h : t.bare = .ok ps) :
    ∀ r ∈ t.roles, r.1.Written r.2 := by
  cases t with
  | assignment op lhs rhs | logical op lhs rhs =>
      simp only [bare, bind_eq_ok] at h
      obtain ⟨left, one, right, other, -⟩ := h
      simpa [roles] using ⟨⟨left, one⟩, right, other⟩
  | unary op operand =>
      obtain ⟨inner, one, -⟩ := bind_eq_ok.mp h
      simpa [roles] using ⟨inner, one⟩
  | ternary condition yes no =>
      simp only [bare, bind_eq_ok] at h
      obtain ⟨first, one, second, two, third, three, -⟩ := h
      simpa [roles] using ⟨⟨first, one⟩, ⟨second, two⟩, third, three⟩
  | arithmetic op lhs rhs =>
      simp only [bare, bind_eq_ok] at h
      obtain ⟨left, one, right, other, -⟩ := h
      have lhs_written : (if op.isMultiplicative then Role.leftOperand else .expression).Written lhs := by
        split <;> exact ⟨left, one⟩
      simpa [roles] using ⟨lhs_written, right, other⟩
  | relational op lhs rhs =>
      simp only [bare, bind_eq_ok] at h
      obtain ⟨left, one, right, other, -⟩ := h
      have lhs_written : (if op = .notMember then Role.expression else .leftOperand).Written lhs := by
        split <;> exact ⟨left, one⟩
      simpa [roles] using ⟨lhs_written, right, other⟩
  | member object field | index object field =>
      simp only [bare, bind_eq_ok] at h
      obtain ⟨⟨⟩, chain, left, one, right, other, -⟩ := h
      simpa [roles] using ⟨⟨chain, left, one⟩, right, other⟩
  | application callee args kwargs =>
      simp only [bare, bind_eq_ok] at h
      obtain ⟨⟨⟩, chain, left, one, positional, others, keyword, rest, -⟩ := h
      simpa [roles, or_imp, forall_and] using
        ⟨⟨chain, left, one⟩, written_of_bares others, written_of_keywordArgs rest⟩
  | array items =>
      obtain ⟨groups, each, -⟩ := bind_eq_ok.mp h
      simpa [roles] using written_of_bares each
  | dictionary entries =>
      obtain ⟨groups, each, -⟩ := bind_eq_ok.mp h
      simpa [roles] using written_of_dictionaryEntries each
  | name | bool | number | string => simp [roles]
  | _ => cases h

/-- The parts of a statement are written in their roles when it is. -/
theorem written_parts_of_statement {t : Tree} {depth : Nat} {lines : List Line}
    (h : t.statement depth = .ok lines) : ∀ r ∈ t.roles, r.1.Written r.2 := by
  cases t with
  | conditional clauses otherwise =>
      obtain ⟨-, first, second, all, last, -⟩ := conditional_eq_ok h
      simpa [roles, or_imp, forall_and] using
        ⟨written_of_clauseLines all, by simpa using written_of_elseLines last⟩
  | foreach vars iterable body =>
      simp only [statement, bind_eq_ok] at h
      obtain ⟨names, plain, range, inner, inside, each, -⟩ := h
      simpa [roles, or_imp, forall_and] using
        ⟨written_of_names plain, ⟨range, inner⟩, _, _, inside, each⟩
  | jump => simp [roles]
  | empty | sequence | clause | keywordArg | keyValue => cases h
  | _ =>
      obtain ⟨ps, one, -⟩ := bind_eq_ok.mp h
      exact written_parts_of_bare one

/-- The statements of a body are written as statements. -/
theorem written_parts_of_body {t : Tree} {depth : Nat} {after : Bool} {lines : List Line}
    (h : t.body depth after = .ok lines) : ∀ r ∈ t.roles, r.1.Written r.2 := by
  cases t with
  | empty => simp [roles]
  | sequence statements => simpa [roles] using written_of_statementLines h
  | _ => cases h

/-- What is written in its role has its parts written in theirs. -/
theorem written_parts {role : Role} {t : Tree} (h : role.Written t) : ∀ r ∈ t.roles, r.1.Written r.2 := by
  cases role with
  | body =>
      obtain ⟨depth, after, lines, h⟩ := h
      exact written_parts_of_body h
  | statement =>
      obtain ⟨depth, lines, h⟩ := h
      exact written_parts_of_statement h
  | expression | leftOperand =>
      obtain ⟨ps, h⟩ := h
      exact written_parts_of_bare h
  | chained =>
      obtain ⟨-, ps, h⟩ := h
      exact written_parts_of_bare h
  | name =>
      obtain ⟨p, h⟩ := h
      exact written_parts_of_bare (exists_bare_of_plainName h)
  | clause =>
      obtain ⟨predicate, body, rfl, choice, inside⟩ := h
      simpa [roles] using ⟨choice, inside⟩
  | keywordArg =>
      obtain ⟨key, value, rfl, left, right⟩ := h
      simpa [roles] using ⟨left, right⟩
  | entry =>
      obtain ⟨key, value, rfl, left, right⟩ := h
      simpa [roles] using ⟨left, right⟩

/-!
### Constructs that are written
-/

/-- What a text does not show of a construct is as it would be read: its names are words, a loop has a
    variable, and a body without a statement is no sequence. -/
def Readable : Tree → Prop
  | .name text => Text.isWord text = true
  | .conditional _ otherwise => otherwise ≠ some (.sequence [])
  | .clause _ body => body ≠ .sequence []
  | .foreach vars _ body => vars ≠ [] ∧ body ≠ .sequence []
  | _ => True

/-- No body in what can be read back is a sequence without a statement. -/
theorem Readable.body_ne {t body : Tree} (h : t.Readable) (member : (Role.body, body) ∈ t.roles) :
    body ≠ .sequence [] := by
  cases t with
  | conditional clauses otherwise =>
      cases otherwise with
      | none => simp [roles] at member
      | some other =>
          obtain rfl : other = body := by simpa [roles, eq_comm] using member
          exact fun same => h (congrArg some same)
  | clause predicate other =>
      obtain rfl : other = body := by simpa [roles, eq_comm] using member
      exact h
  | foreach vars iterable other =>
      obtain rfl : other = body := by simpa [roles, eq_comm] using member
      exact h.2
  | arithmetic op lhs rhs | relational op lhs rhs =>
      simp only [roles, List.mem_cons, Prod.mk.injEq] at member
      split_ifs at member <;> simp at member
  | _ => simp [roles] at member

/-- Only expressions are written as expressions. -/
theorem isExpression_of_bare {t : Tree} {ps : List Piece} (h : t.bare = .ok ps) :
    t.isExpression = true := by
  cases t <;> first | rfl | cases h

/-- Only a chain is let stand in front of links. -/
theorem isChain_of_checkChain {t : Tree} (h : t.checkChain = .ok ()) : t.isChain = true := by
  unfold checkChain at h
  split at h <;> first | rfl | cases h

/-- What is written as an expression has all that it needs. -/
theorem isComplete_of_bare {t : Tree} {ps : List Piece} (readable : t.Readable) (h : t.bare = .ok ps) :
    t.isComplete = true := by
  cases t with
  | name text => exact readable
  | number value =>
      obtain ⟨p, one, -⟩ := bind_eq_ok.mp h
      simpa [isComplete] using (numeral_eq_ok one).2
  | string content =>
      obtain ⟨p, one, -⟩ := bind_eq_ok.mp h
      unfold quoted at one
      split at one
      · rename_i q found
        exact Option.isSome_of_mem found
      · cases one
  | missing | empty | sequence | conditional | clause | foreach | jump | keywordArg | keyValue => cases h
  | _ => rfl

/-- What is written in a role is a construct that the role admits, and is complete. -/
theorem admits_of_written {role : Role} {t : Tree} (readable : t.Readable)
    (body : role = .body → t ≠ .sequence []) (h : role.Written t) :
    role.admits t = true ∧ t.isComplete = true := by
  cases role with
  | body =>
      obtain ⟨depth, after, lines, h⟩ := h
      cases t with
      | empty => exact ⟨rfl, rfl⟩
      | sequence statements =>
          refine ⟨rfl, ?_⟩
          simpa [isComplete] using body rfl
      | _ => cases h
  | statement =>
      obtain ⟨depth, lines, h⟩ := h
      cases t with
      | conditional clauses otherwise =>
          exact ⟨rfl, by simpa [isComplete] using (conditional_eq_ok h).1⟩
      | foreach vars iterable body => exact ⟨rfl, by simpa [isComplete] using readable.1⟩
      | jump => exact ⟨rfl, rfl⟩
      | missing | empty | sequence | clause | keywordArg | keyValue => cases h
      | _ =>
          obtain ⟨ps, one, -⟩ := bind_eq_ok.mp h
          exact ⟨rfl, isComplete_of_bare readable one⟩
  | expression =>
      obtain ⟨ps, h⟩ := h
      exact ⟨isExpression_of_bare h, isComplete_of_bare readable h⟩
  | leftOperand =>
      obtain ⟨ps, h⟩ := h
      refine ⟨?_, isComplete_of_bare readable h⟩
      cases t <;> first | rfl | cases h
  | chained =>
      obtain ⟨chain, ps, h⟩ := h
      exact ⟨isChain_of_checkChain chain, isComplete_of_bare readable h⟩
  | name =>
      obtain ⟨p, h⟩ := h
      obtain ⟨text, rfl, -⟩ := plainName_eq_ok h
      exact ⟨rfl, readable⟩
  | clause =>
      obtain ⟨predicate, body, rfl, -⟩ := h
      exact ⟨rfl, rfl⟩
  | keywordArg =>
      obtain ⟨key, value, rfl, -⟩ := h
      exact ⟨rfl, rfl⟩
  | entry =>
      obtain ⟨key, value, rfl, -⟩ := h
      exact ⟨rfl, rfl⟩

/-- What is written in its role fits the role. -/
theorem fits_of_written {t : Tree} : ∀ {role : Role}, t.Throughout Readable →
    (role = .body → t ≠ .sequence []) → role.Written t → Fits role t := by
  induction t using inductionOnParts with
  | step t ih =>
      intro role readable body written
      obtain ⟨here, below⟩ := throughout_iff.mp readable
      obtain ⟨admitted, complete⟩ := admits_of_written here body written
      refine .of_parts admitted complete fun r member => ?_
      have inside : r.2 ∈ t.parts := List.mem_map_of_mem member
      refine ih r.2 inside (below r.2 inside) ?_ (written_parts written r member)
      intro same
      apply here.body_ne
      rwa [← same]

/-!
### Bodies made sequences
-/

/-- What a part with the role becomes when bodies are made sequences. -/
def Role.sequenced : Role → Tree → Tree
  | .body, t => t.sequenceBodies.asBody
  | _, t => t.sequenceBodies

theorem sequenceBodiesAll_eq_map (ts : List Tree) : sequenceBodiesAll ts = ts.map sequenceBodies := by
  induction ts with
  | nil => rfl
  | cons t ts ih => rw [sequenceBodiesAll, ih, List.map_cons]

/-- Making bodies sequences changes no role. -/
theorem roles_sequenceBodies (t : Tree) :
    t.sequenceBodies.roles = t.roles.map fun r => (r.1, r.1.sequenced r.2) := by
  cases t with
  | conditional clauses otherwise =>
      cases otherwise <;>
        simp [sequenceBodies, sequenceElse, sequenceBodiesAll_eq_map, roles, Role.sequenced,
          Function.comp_def]
  | arithmetic op lhs rhs | relational op lhs rhs =>
      simp only [sequenceBodies, roles, List.map_cons, List.map_nil]
      split <;> rfl
  | _ =>
      simp [sequenceBodies, sequenceBodiesAll_eq_map, roles, Role.sequenced, Function.comp_def]

/-- A body that is made a sequence is not made one without a statement. -/
theorem asBody_sequenceBodies_ne {t : Tree} (h : t ≠ .sequence []) :
    t.sequenceBodies.asBody ≠ .sequence [] := by
  cases t with
  | sequence statements =>
      cases statements with
      | nil => contradiction
      | cons t ts => simp [sequenceBodies, sequenceBodiesAll, asBody]
  | _ => simp [sequenceBodies, asBody]

theorem Readable.sequenceBodies {t : Tree} (h : t.Readable) : t.sequenceBodies.Readable := by
  cases t with
  | conditional clauses otherwise =>
      cases otherwise with
      | none => exact fun same => nomatch same
      | some body =>
          have body_ne := asBody_sequenceBodies_ne fun same => h (congrArg some same)
          exact fun same => body_ne (Option.some.inj same)
  | clause predicate body => exact asBody_sequenceBodies_ne h
  | foreach vars iterable body =>
      refine ⟨?_, asBody_sequenceBodies_ne h.2⟩
      simpa [sequenceBodiesAll_eq_map] using h.1
  | name => exact h
  | _ => trivial

section

variable {p : Tree → Prop} (lone : ∀ t, p (.sequence [t])) (sequenced : ∀ t, p t → p t.sequenceBodies)

include lone in
theorem throughout_asBody {t : Tree} (h : t.Throughout p) : t.asBody.Throughout p := by
  cases t with
  | empty | sequence => exact h
  | _ =>
      refine throughout_iff.mpr ⟨lone _, ?_⟩
      simpa [asBody, parts, roles] using h

include lone sequenced in
/-- What holds of every construct and is kept where bodies are made sequences holds of every construct
    then. -/
theorem throughout_sequenceBodies {t : Tree} (h : t.Throughout p) : t.sequenceBodies.Throughout p := by
  induction t using inductionOnParts with
  | step t ih =>
      obtain ⟨here, below⟩ := throughout_iff.mp h
      refine throughout_iff.mpr ⟨sequenced t here, forall_mem_parts.mpr ?_⟩
      rw [roles_sequenceBodies]
      refine List.forall_mem_map.mpr fun r member => ?_
      have inside : r.2 ∈ t.parts := List.mem_map_of_mem member
      have throughout := ih r.2 inside (below r.2 inside)
      obtain ⟨role, part⟩ := r
      cases role with
      | body => exact throughout_asBody lone throughout
      | _ => exact throughout

include lone sequenced in
/-- What holds of the constructs of a tree still holds when it is made a program. -/
theorem throughout_asProgram {t : Tree} (h : t.Throughout p) : t.asProgram.Throughout p :=
  throughout_asBody lone (throughout_sequenceBodies lone sequenced h)

end

/-- What has a spelling as a program fits as one. -/
theorem fits_of_spelling {t : Tree} {text : String} (readable : t.Throughout Readable)
    (body : t ≠ .sequence []) (spelt : t.spelling = .ok text) : Fits .body t.asProgram := by
  obtain ⟨lines, written, -⟩ := bind_eq_ok.mp spelt
  have program : t.asProgram.Throughout Readable :=
    throughout_asProgram (fun _ => trivial) (fun _ h => h.sequenceBodies) readable
  exact fits_of_written program (fun _ => asBody_sequenceBodies_ne body) ⟨0, false, lines, written⟩

/-- The spelling of a tree is read as the program that the tree stands for. -/
theorem readTree_spelling {t : Tree} {text : String} (readable : t.Throughout Readable)
    (body : t ≠ .sequence []) (spelt : t.spelling = .ok text) : readTree none text = .ok t.asProgram := by
  have fits := fits_of_spelling readable body spelt
  obtain ⟨lines, written, ⟨⟩⟩ := bind_eq_ok.mp spelt
  exact readTree_written fits.isProper written

end Tree

end BuildScript
