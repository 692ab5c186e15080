/-
Module: BuildScript.Proofs.Grammar.Extension
Layer: proofs about the grammar
Purpose: What a derivation makes of terminals does not change when more terminals come behind them. A phrase
  looks at no more than the terminal behind it, so only one that reaches to the end can see the new ones;
  it stays as it is if it is closed, or if none of its operators comes first among them. Statements
  therefore follow those of another program where the last of these is closed.
Main exports: Phrase.Closed, Derives.append, Derives.append_statements
-/
import BuildScript.Proofs.Grammar.Binding
import BuildScript.Proofs.Tree.Schema

namespace BuildScript.Grammar

variable {i j o : List Terminal}

/-!
### First terminals
-/

/-- What comes first is the same with more terminals behind, unless there were none. -/
theorem starts_append {p : Terminal → Bool} (other : Starts p o = false)
    (ends : o = [] → Starts p j = false) : Starts p (o ++ j) = false := by
  cases o with
  | nil => exact ends rfl
  | cons => exact other

theorem starts_append_of_ne_nil {p : Terminal → Bool} (other : Starts p i = false) (nonempty : i ≠ []) :
    Starts p (i ++ j) = false :=
  starts_append other fun none => absurd none nonempty

theorem Derives.nil_of_nil {phrase : Phrase} {found : phrase.Found} (h : Derives phrase i found o)
    (none : i = []) : o = [] := by
  subst none
  exact List.length_eq_zero_iff.mp (Nat.le_zero.mp h.length_le)

/-- A phrase that takes something from the terminals, or leaves something of them, has some. -/
theorem Derives.ne_nil {phrase : Phrase} {found : phrase.Found} (h : Derives phrase i found o)
    (some : o = [] → 0 < phrase.least found) : i ≠ [] := by
  rintro rfl
  have least := some (h.nil_of_nil rfl)
  have taken := h.length_add_least
  rw [List.length_nil] at taken
  omega

theorem Phrase.least_level {l : Level} {found : Option Tree} (some : found ≠ none) :
    0 < Phrase.least (.level l) found := by
  obtain ⟨t, rfl⟩ := Option.ne_none_iff_exists'.mp some
  exact Nat.one_pos

/-!
### Closed phrases
-/

/-- A phrase that takes all the terminals `i` is the same in front of `j`. Phrases behind which something has
    to come take all of them in no program. -/
def Phrase.Closed : (phrase : Phrase) → (i : List Terminal) → phrase.Found → (j : List Terminal) → Prop
  | .level _, _, found, j => found ≠ none ∧ Stops .assignment j
  | .operands _ _, _, _, j | .links _, _, _, j => Stops .assignment j
  | .bracketed _, _, _, _ => True
  | .statement, i, found, j => found ≠ none ∧ (Starts beginsStatement i = false → Stops .assignment j)
  | .element _ _, _, _, _ | .row _ _, _, _, _ | .statements, _, _, _ | .body, _, _, _ => False
  | .clauses, _, _, _ | .loopVariables, _, _, _ => False

/-- No operator of any level comes first. -/
theorem Stops.starts (stops : Stops .assignment j) (l : Level) : Starts l.operator j = false :=
  stops l (by rcases l with _ | _ | ⟨_ | _ | _ | _⟩ | ⟨_ | _⟩ | _ | _ | _ <;> decide)

/-- What is derived from terminals is derived from them with more behind. -/
theorem Derives.append {phrase : Phrase} {found : phrase.Found} (h : Derives phrase i found o)
    (closed : o = [] → phrase.Closed i found j) : Derives phrase (i ++ j) found (o ++ j) := by
  induction h with
  | absent other => exact .absent (starts_append other fun none => absurd rfl (closed none).1)
  | parenthesized _ inner => exact .parenthesized (inner (by simp))
  | name => exact .name
  | truth => exact .truth
  | falsehood => exact .falsehood
  | number => exact .number
  | string => exact .string
  | array _ all => exact .array (all fun _ => trivial)
  | dictionary _ all => exact .dictionary (all fun _ => trivial)
  | nothing => exact .nothing
  | something other elements ih =>
      exact .something (starts_append_of_ne_nil other (elements.ne_nil (by simp))) (ih (by simp))
  | last element ends ih =>
      exact .last (ih closed) (starts_append ends fun none => (closed none).elim)
  | trailing _ ih => exact .trailing (ih (by simp))
  | more element goes_on elements element_ih elements_ih =>
      have rest := elements.ne_nil fun none => (closed none).elim
      exact .more (element_ih (by simp)) (starts_append_of_ne_nil goes_on rest) (elements_ih closed)
  | item _ ih => exact .item (ih fun none => (closed none).elim)
  | entry _ _ left right => exact .entry (left (by simp)) (right fun none => (closed none).elim)
  | positional _ plain value =>
      exact .positional (value fun none => (closed none).elim)
        (starts_append plain fun none => (closed none).elim)
  | keyword _ _ key right => exact .keyword (key (by simp)) (right fun none => (closed none).elim)
  | noChain _ first => exact .noChain (first closed)
  | single _ other first => exact .single (first closed) other
  | chain _ links first_ih links_ih =>
      exact .chain (first_ih fun none => ⟨by simp, (closed (links.nil_of_nil none)).2⟩)
        (links_ih fun none => (closed none).2)
  | chainEnd ends => exact .chainEnd (starts_append ends fun none => (closed none).starts .chain)
  | member _ links field_ih links_ih =>
      exact .member (field_ih fun none => ⟨by simp, closed (links.nil_of_nil none)⟩) (links_ih closed)
  | call _ _ args_ih links_ih => exact .call (args_ih fun _ => trivial) (links_ih closed)
  | index _ _ inner_ih links_ih => exact .index (inner_ih (by simp)) (links_ih closed)
  | noPrefix plain operand ih =>
      have nonempty := operand.ne_nil fun none => Phrase.least_level (closed none).1
      exact .noPrefix (starts_append_of_ne_nil plain nonempty) (ih closed)
  | prefixed _ ih => exact .prefixed (ih fun none => ⟨by simp, (closed none).2⟩)
  | @grouping g i m o first found _ others operand_ih others_ih =>
      refine .grouping (operand_ih fun none => ?_) (others_ih fun none => (closed none).2)
      -- Without anything behind it, the operand is all that is found.
      subst none
      cases others with
      | operandsEnd => exact closed rfl
  | @operandsEnd g _ _ ends =>
      exact .operandsEnd (starts_append ends fun none => (closed none).starts (.grouping g))
  | operand operator _ others right_ih others_ih =>
      exact .operand operator (right_ih fun none => ⟨by simp, closed (others.nil_of_nil none)⟩)
        (others_ih closed)
  | @notCompared c _ _ _ _ ends ih =>
      exact .notCompared (ih closed) (starts_append ends fun none => (closed none).2.starts (.comparing c))
  | @compared _ op _ _ _ _ _ its_level _ _ left_ih right_ih =>
      have left := left_ih (by cases op <;> simp [Comparison.terminals])
      rw [List.append_assoc] at left
      exact .compared its_level left (right_ih fun none => ⟨by simp, (closed none).2⟩)
  | unconditional _ ends ih =>
      exact .unconditional (ih closed) (starts_append ends fun none => (closed none).2.starts .conditional)
  | conditional _ _ _ left_ih middle_ih right_ih =>
      exact .conditional (left_ih (by simp)) (middle_ih (by simp))
        (right_ih fun none => ⟨by simp, (closed none).2⟩)
  | unassigned _ ends ih =>
      exact .unassigned (ih closed) (starts_append ends fun none => (closed none).2.starts .assignment)
  | assigned _ _ target_ih right_ih =>
      exact .assigned (target_ih (by simp)) (right_ih fun none => ⟨by simp, (closed none).2⟩)
  | expression other inner ih =>
      have nonempty := inner.ne_nil fun none => Phrase.least_level (closed none).1
      exact .expression (starts_append_of_ne_nil other nonempty)
        (ih fun none => ⟨(closed none).1, (closed none).2 other⟩)
  | choice _ ih => exact .choice (ih (by simp))
  | choiceElse _ _ clauses_ih otherwise_ih => exact .choiceElse (clauses_ih (by simp)) (otherwise_ih (by simp))
  | loop names inner body names_ih inner_ih body_ih =>
      have rest := body.ne_nil (by simp)
      exact .loop (names_ih (by simp)) (inner_ih fun none => absurd none rest) (body_ih (by simp))
  | stop => exact .stop
  | skip => exact .skip
  | statementsEnd _ ih => exact .statementsEnd (ih fun none => (closed none).elim)
  | statements _ rest one_ih rest_ih =>
      exact .statements (one_ih fun none => (closed (rest.nil_of_nil none)).elim) (rest_ih closed)
  | emptyBody _ ih => exact .emptyBody (ih closed)
  | body _ ih => exact .body (ih closed)
  | clause _ body ends inner_ih body_ih =>
      exact .clause (inner_ih fun none => (closed (body.nil_of_nil none)).elim) (body_ih closed)
        (starts_append ends fun none => (closed none).elim)
  | clauses _ body _ inner_ih body_ih rest_ih =>
      have rest := body.ne_nil (by simp)
      exact .clauses (inner_ih fun none => absurd none rest) (body_ih (by simp)) (rest_ih closed)
  | lastVariable ends => exact .lastVariable (starts_append ends fun none => (closed none).elim)
  | nextVariable _ ih => exact .nextVariable (ih closed)

/-!
### Statements in front of statements
-/

/-- Where no statement is found, nothing has been taken. -/
theorem Derives.eq_of_no_statement (h : Derives .statement i none o) : o = i := by
  cases h with
  | expression _ inner => exact (inner.absent_found rfl).1

/-- A statement that begins with no word of its own is an expression. -/
theorem Derives.isExpression_of_statement {t : Tree} (h : Derives .statement i (some t) o) (sound : Sound i)
    (other : Starts beginsStatement i = false) : t.isExpression = true := by
  cases h with
  | expression _ inner => exact (inner.formed sound t rfl).1
  | choice | choiceElse | loop | stop | skip => simp [Starts, beginsStatement] at other

/-- Statements can be followed by those of another program, unless the last one is an expression that the
    other program begins by going on with. -/
theorem Derives.append_statements {ts us : List Tree} (front : Derives .statements i ts [])
    (back : Derives .statements j us []) (sound : Sound i)
    (seam : ∀ t, ts.getLast? = some t → t.isExpression = true → Stops .assignment j) :
    Derives .statements (i ++ j) (ts ++ us) [] := by
  induction ts generalizing i with
  | nil =>
      cases front with
      | statementsEnd none =>
          obtain rfl := none.eq_of_no_statement
          exact back
  | cons first others ih =>
      cases front with
      | @statements _ m _ _ _ one rest =>
          have behind := ih rest (one.sound sound) fun t last =>
            seam t (by rw [List.getLast?_cons, last, Option.getD_some])
          refine .statements (one.append fun none => ⟨by simp, fun other => ?_⟩) behind
          have alone : others = [] := by
            cases rest with
            | statementsEnd => rfl
            | statements more => exact absurd none (more.ne_nil fun _ => Nat.one_pos)
          exact seam first (by rw [alone]; rfl) (one.isExpression_of_statement sound other)

end BuildScript.Grammar
