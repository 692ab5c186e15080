/-
Module: BuildScript.Proofs.Spelling.Vacant
Layer: proofs about the spelling
Purpose: Sequences without a statement. A program assembled by hand may have such a sequence for a body; it is
  written as nothing, like an empty body, and read back as one. So whatever has a spelling is written as a
  program, as long as its names are words and its loops have variables.
Main exports: Tree.emptied, Tree.WellNamed, body_emptied, readTree_of_spelling
-/
import BuildScript.Proofs.Spelling.Conformance

namespace BuildScript

namespace Tree

mutual
/-- The tree with an empty node in place of every sequence without a statement. -/
def emptied : Tree → Tree
  | .empty => .empty
  | .sequence [] => .empty
  | .sequence (first :: others) => .sequence (first.emptied :: emptiedAll others)
  | .assignment op target value => .assignment op target.emptied value.emptied
  | .conditional clauses otherwise => .conditional (emptiedAll clauses) (emptiedElse otherwise)
  | .clause predicate body => .clause predicate.emptied body.emptied
  | .foreach vars iterable body => .foreach (emptiedAll vars) iterable.emptied body.emptied
  | .jump kind => .jump kind
  | .unary op operand => .unary op operand.emptied
  | .logical op lhs rhs => .logical op lhs.emptied rhs.emptied
  | .ternary condition yes no => .ternary condition.emptied yes.emptied no.emptied
  | .arithmetic op lhs rhs => .arithmetic op lhs.emptied rhs.emptied
  | .relational op lhs rhs => .relational op lhs.emptied rhs.emptied
  | .member object field => .member object.emptied field.emptied
  | .index target position => .index target.emptied position.emptied
  | .application callee args kwargs =>
      .application callee.emptied (emptiedAll args) (emptiedAll kwargs)
  | .keywordArg key value => .keywordArg key.emptied value.emptied
  | .name text => .name text
  | .bool value => .bool value
  | .number value => .number value
  | .string content => .string content
  | .array items => .array (emptiedAll items)
  | .dictionary entries => .dictionary (emptiedAll entries)
  | .keyValue key value => .keyValue key.emptied value.emptied
  | .missing gap => .missing gap

/-- The same for each of the trees. -/
def emptiedAll : List Tree → List Tree
  | [] => []
  | t :: ts => t.emptied :: emptiedAll ts

/-- The same for the body of an `else`. -/
def emptiedElse : Option Tree → Option Tree
  | none => none
  | some body => some body.emptied
end

theorem emptiedAll_eq_map (ts : List Tree) : emptiedAll ts = ts.map emptied := by
  induction ts with
  | nil => rfl
  | cons t ts ih => rw [emptiedAll, ih, List.map_cons]

/-- An emptied tree is no sequence without a statement. -/
theorem emptied_ne (t : Tree) : t.emptied ≠ .sequence [] := by
  cases t with
  | sequence statements => cases statements <;> simp [emptied]
  | _ => simp [emptied]

/-- Emptying a tree empties its parts and leaves their roles to them. -/
theorem roles_emptied (t : Tree) : t.emptied.roles = t.roles.map fun r => (r.1, r.2.emptied) := by
  cases t with
  | sequence statements => cases statements <;> simp [emptied, emptiedAll_eq_map, roles]
  | conditional clauses otherwise =>
      cases otherwise <;>
        simp [emptied, emptiedElse, emptiedAll_eq_map, roles, Function.comp_def]
  | _ => simp [emptied, emptiedAll_eq_map, roles, Function.comp_def]

/-!
### Where nothing is vacant
-/

/-- Names are words, and a loop has a variable. -/
def WellNamed : Tree → Prop
  | .name text => Text.isWord text = true
  | .foreach vars _ _ => vars ≠ []
  | _ => True

/-- Once emptied, a construct has nothing more that its text could not show. -/
theorem WellNamed.emptied {t : Tree} (h : t.WellNamed) : t.emptied.Readable := by
  cases t with
  | sequence statements => cases statements <;> trivial
  | conditional clauses otherwise =>
      cases otherwise with
      | none => exact fun same => nomatch same
      | some body => exact fun same => body.emptied_ne (Option.some.inj same)
  | clause predicate body => exact body.emptied_ne
  | foreach vars iterable body =>
      have some_var : vars ≠ [] := h
      exact ⟨by simpa [emptiedAll_eq_map] using some_var, body.emptied_ne⟩
  | name => exact h
  | _ => trivial

/-- The same, wherever in the tree. -/
theorem throughout_emptied {t : Tree} (h : t.Throughout WellNamed) : t.emptied.Throughout Readable := by
  induction t using inductionOnParts with
  | step t ih =>
      obtain ⟨here, below⟩ := throughout_iff.mp h
      refine throughout_iff.mpr ⟨here.emptied, forall_mem_parts.mpr ?_⟩
      rw [roles_emptied]
      refine List.forall_mem_map.mpr fun r member => ?_
      have inside : r.2 ∈ t.parts := List.mem_map_of_mem member
      exact ih r.2 inside (below r.2 inside)

/-!
### Writing
-/

theorem emptiedAll_eq_self {ts : List Tree} (h : ∀ t ∈ ts, t.emptied = t) : emptiedAll ts = ts := by
  rw [emptiedAll_eq_map, List.map_congr_left h, List.map_id']

/-- Where no part changes, the tree changes only if it is vacant itself. -/
theorem emptied_eq_self {t : Tree} (filled : t ≠ .sequence []) (h : ∀ part ∈ t.parts, part.emptied = part) :
    t.emptied = t := by
  cases t with
  | sequence statements =>
      cases statements with
      | nil => contradiction
      | cons first others =>
          simp only [parts, roles, List.map_cons, List.forall_mem_cons, List.map_map] at h
          have others_same : emptiedAll others = others := emptiedAll_eq_self (by simpa using h.2)
          rw [emptied, h.1, others_same]
  | conditional clauses otherwise =>
      simp only [parts, roles, List.map_append, List.forall_mem_append, List.map_map] at h
      have clauses_same : emptiedAll clauses = clauses := emptiedAll_eq_self (by simpa using h.1)
      cases otherwise with
      | none => rw [emptied, clauses_same, emptiedElse]
      | some body => rw [emptied, clauses_same, emptiedElse, h.2 body (by simp)]
  | _ => simp_all [emptied, parts, roles, emptiedAll_eq_self, or_imp, forall_and]

/-- Whether what is written in the role is part of an expression. -/
def Role.isInExpression : Role → Bool
  | .body | .statement | .clause => false
  | .expression | .leftOperand | .chained | .name | .keywordArg | .entry => true

/-- The parts of what is written as an expression are parts of an expression. -/
theorem isInExpression_of_bare {t : Tree} {ps : List Piece} (h : t.bare = .ok ps) :
    ∀ r ∈ t.roles, r.1.isInExpression = true := by
  cases t with
  | arithmetic op lhs rhs | relational op lhs rhs =>
      simp only [roles, List.forall_mem_cons, List.not_mem_nil, false_implies, implies_true, and_true]
      exact ⟨by split <;> rfl, rfl⟩
  | empty | sequence | conditional | clause | foreach | jump | keywordArg | keyValue | missing => cases h
  | _ => simp [roles, Role.isInExpression, or_imp, forall_and]

/-- An expression that is written has no sequence in it. -/
theorem emptied_of_written {t : Tree} : ∀ {role : Role}, role.isInExpression = true → role.Written t →
    t.emptied = t := by
  induction t using inductionOnParts with
  | step t ih =>
      intro role inExpression written
      have parts_same (inside : ∀ r ∈ t.roles, r.1.isInExpression = true) :
          ∀ part ∈ t.parts, part.emptied = part :=
        forall_mem_parts.mpr fun r member =>
          ih r.2 (List.mem_map_of_mem member) (inside r member) (written_parts written r member)
      have of_bare {ps : List Piece} (h : t.bare = .ok ps) : t.emptied = t := by
        refine emptied_eq_self ?_ (parts_same (isInExpression_of_bare h))
        rintro rfl
        cases h
      cases role with
      | body | statement | clause => cases inExpression
      | expression | leftOperand =>
          obtain ⟨ps, h⟩ := written
          exact of_bare h
      | chained =>
          obtain ⟨-, ps, h⟩ := written
          exact of_bare h
      | name =>
          obtain ⟨p, h⟩ := written
          exact of_bare (exists_bare_of_plainName h)
      | keywordArg | entry =>
          obtain ⟨key, value, rfl, -⟩ := written
          exact emptied_eq_self (by simp) (parts_same (by simp [roles, Role.isInExpression]))

/-- In an expression that has been written nothing is vacant. -/
theorem bare_emptied {t : Tree} {ps : List Piece} (h : t.bare = .ok ps) : t.emptied = t := by
  have written : Role.expression.Written t := ⟨ps, h⟩
  exact emptied_of_written rfl written

/-- The variables of a loop that has been written are names. -/
theorem emptied_names {vars : List Tree} {names : List Piece} (h : vars.mapM plainName = .ok names) :
    emptiedAll vars = vars := by
  refine emptiedAll_eq_self fun t member => ?_
  have written : Role.name.Written t := written_of_names h t member
  exact emptied_of_written rfl written

/-- Whether a statement ends in an expression does not depend on its bodies. -/
theorem endsInExpression_emptied (t : Tree) : t.emptied.endsInExpression = t.endsInExpression := by
  cases t with
  | sequence statements => cases statements <;> rfl
  | _ => rfl

/-- A statement that is an expression stays as it is. -/
theorem statement_emptied_of_expression {t : Tree} {depth : Nat} {lines : List Line}
    (h : (do let pieces ← t.bare; return [⟨depth, pieces⟩] : Spelling (List Line)) = .ok lines)
    (written : t.statement depth = .ok lines) : t.emptied.statement depth = .ok lines := by
  obtain ⟨pieces, bare, -⟩ := bind_eq_ok.mp h
  rw [bare_emptied bare, written]

mutual
/-- A statement is written as before. -/
theorem statement_emptied : ∀ (t : Tree) {depth : Nat} {lines : List Line},
    t.statement depth = .ok lines → t.emptied.statement depth = .ok lines
  | .conditional clauses otherwise, depth, _, h => by
      obtain ⟨nonempty, first, second, all, last, rfl⟩ := conditional_eq_ok h
      have some_clause : (emptiedAll clauses).isEmpty = false := by
        cases clauses with
        | nil => contradiction
        | cons t ts => rfl
      rw [emptied, statement, some_clause, clauseLines_emptied clauses all,
        elseLines_emptied otherwise last]
      rfl
  | .foreach vars iterable body, depth, _, h => by
      simp only [statement, bind_eq_ok] at h
      obtain ⟨names, plain, range, inner, inside, each, ⟨⟩⟩ := h
      rw [emptied, statement, emptied_names plain, plain, bare_emptied inner, inner, body_emptied body each]
      rfl
  | .jump kind, _, _, h => h
  | .assignment .., _, _, h | .unary .., _, _, h | .logical .., _, _, h | .ternary .., _, _, h
  | .arithmetic .., _, _, h | .relational .., _, _, h | .member .., _, _, h | .index .., _, _, h
  | .application .., _, _, h | .name .., _, _, h | .bool .., _, _, h | .number .., _, _, h
  | .string .., _, _, h | .array .., _, _, h | .dictionary .., _, _, h | .missing .., _, _, h =>
      statement_emptied_of_expression h h

/-- A body is written as before; nothing is written for a sequence without a statement. -/
theorem body_emptied : ∀ (t : Tree) {depth : Nat} {after : Bool} {lines : List Line},
    t.body depth after = .ok lines → t.emptied.body depth after = .ok lines
  | .empty, _, _, _, h => h
  | .sequence [], _, _, _, h => h
  | .sequence (first :: others), _, _, _, h => statementLines_emptied (first :: others) h

/-- Statements are written alike once emptied, one by one. -/
theorem statementLines_emptied : ∀ (ts : List Tree) {depth : Nat} {after : Bool} {lines : List Line},
    statementLines depth after ts = .ok lines → statementLines depth after (emptiedAll ts) = .ok lines
  | [], _, _, _, h => h
  | t :: ts, depth, after, _, h => by
      obtain ⟨first, others, one, apart, rest, rfl⟩ := statementLines_cons_eq_ok h
      have go_on : (after && areContinuation first) = false := by
        cases after with
        | false => rfl
        | true => exact apart rfl
      rw [emptiedAll, statementLines, endsInExpression_emptied, statementLines_emptied ts rest]
      refine bind_eq_ok.mpr ⟨first, statement_emptied t one, ?_⟩
      rw [go_on]
      rfl

/-- Clauses are written alike with their bodies emptied. -/
theorem clauseLines_emptied : ∀ (clauses : List Tree) {depth : Nat} {word : Keyword} {lines : List Line},
    clauseLines depth word clauses = .ok lines → clauseLines depth word (emptiedAll clauses) = .ok lines
  | [], _, _, _, h => h
  | .clause predicate body :: rest, depth, word, _, h => by
      simp only [clauseLines, bind_eq_ok] at h
      obtain ⟨ps, choice, inside, inner, others, more, ⟨⟩⟩ := h
      rw [emptiedAll, emptied, clauseLines, bare_emptied choice, choice, body_emptied body inner,
        clauseLines_emptied rest more]
      rfl

/-- The body of an `else` is written alike when it is empty or a sequence without a statement. -/
theorem elseLines_emptied : ∀ (body? : Option Tree) {depth : Nat} {lines : List Line},
    elseLines depth body? = .ok lines → elseLines depth (emptiedElse body?) = .ok lines
  | none, _, _, h => h
  | some body, depth, _, h => by
      obtain ⟨inside, inner, ⟨⟩⟩ := bind_eq_ok.mp h
      rw [emptiedElse, elseLines, body_emptied body inner]
      rfl
end

/-!
### Reading back
-/

/-- Making bodies sequences adds no names and takes no variables away. -/
theorem WellNamed.sequenceBodies {t : Tree} (h : t.WellNamed) : t.sequenceBodies.WellNamed := by
  cases t with
  | name => exact h
  | foreach vars iterable body =>
      have some_var : vars ≠ [] := h
      simpa [Tree.sequenceBodies, WellNamed, sequenceBodiesAll_eq_map] using some_var
  | _ => trivial

/-- What has a spelling fits as a program once empty bodies stand in place of sequences without a
    statement. -/
theorem fits_emptied {t : Tree} {text : String} (named : t.Throughout WellNamed)
    (spelt : t.spelling = .ok text) : Fits .body t.asProgram.emptied := by
  obtain ⟨lines, written, -⟩ := bind_eq_ok.mp spelt
  have program : t.asProgram.Throughout WellNamed :=
    throughout_asProgram (fun _ => trivial) (fun _ h => h.sequenceBodies) named
  exact fits_of_written (throughout_emptied program) (fun _ => emptied_ne _)
    ⟨0, false, lines, body_emptied _ written⟩

/-- The spelling of a tree is read, and as the program that the tree stands for, with empty bodies in place
    of sequences without a statement. -/
theorem readTree_of_spelling {t : Tree} {text : String} (named : t.Throughout WellNamed)
    (spelt : t.spelling = .ok text) : readTree none text = .ok t.asProgram.emptied := by
  have fits := fits_emptied named spelt
  obtain ⟨lines, written, ⟨⟩⟩ := bind_eq_ok.mp spelt
  exact readTree_written fits.isProper (body_emptied _ written)

end Tree

end BuildScript
