/-
Module: BuildScript.Proofs.Grammar.Bound
Layer: proofs about the grammar
Purpose: How much bound a production is given does not matter as long as it is no less than the number of
  terminals left. For every production that takes a bound, one more makes no difference: loops go on behind a
  terminal that they have taken, and so does every expression and every body inside another.
Main exports: Parser.Alike, Parser.program_eq_of_le
-/
import BuildScript.Proofs.Grammar.Acceptance
import BuildScript.Proofs.Grammar.Cutoff
import BuildScript.Proofs.Grammar.Locality

namespace BuildScript

namespace Parser

open Grammar

variable {α β : Type} {n : Nat}

/-- With fewer than `n` terminals left, the steps come to the same. -/
structure Alike (n : Nat) (x y : Parser α) : Prop where
  isLocal : Local x
  same : ∀ s : State, s.input.length < n → x s = y s

/-- A step that is local never puts terminals back. -/
theorem Local.length_le {x : Parser α} (h : Local x) {s s' : State} {a : α} (run : x s = .ok a s') :
    s'.input.length ≤ s.input.length := by
  obtain ⟨k, -, rest, -⟩ := h s
  rw [run] at rest
  have rest : s'.input = s.input.drop k := rest
  rw [rest, List.length_drop]
  exact Nat.sub_le _ _

namespace Alike

/-- A step without a bound comes to the same as itself. -/
theorem refl {x : Parser α} (h : Local x) : Alike n x x :=
  ⟨h, fun _ _ => rfl⟩

/-- With still fewer terminals left the steps come to the same as well. -/
theorem mono {x y : Parser α} {m : Nat} (h : Alike n x y) (le : m ≤ n) : Alike m x y :=
  ⟨h.isLocal, fun s short => h.same s (Nat.lt_of_lt_of_le short le)⟩

/-- The second steps begin with no more terminals than the first ones, which are local. -/
theorem bind {x y : Parser α} {f g : α → Parser β} (hx : Alike n x y) (hf : ∀ a, Alike n (f a) (g a)) :
    Alike n (x >>= f) (y >>= g) where
  isLocal := hx.isLocal.bind fun a => (hf a).isLocal
  same s short := by
    have first := hx.same s short
    cases run : x s with
    | error e s' => rw [bind_apply_error run, bind_apply_error (first ▸ run)]
    | ok a s' =>
        rw [bind_apply_ok run, bind_apply_ok (first ▸ run)]
        exact (hf a).same s' (Nat.lt_of_le_of_lt (hx.isLocal.length_le run) short)

/-!
### At the end of the input
-/

/-- To come to the same with fewer than one terminal is to come to the same at the end. -/
theorem at_end {x y : Parser α} (isLocal : Local x) (h : ∀ s : State, s.input = [] → x s = y s) :
    Alike 1 x y where
  isLocal
  same s short := h s (List.length_eq_zero_iff.mp (Nat.lt_one_iff.mp short))

section

variable {s : State} (input : s.input = [])

include input

theorem accept_nil (t : Terminal) : Parser.accept t s = .ok false s := by
  simp [Parser.accept, input]

theorem take?_nil (f : Terminal → Option α) : Parser.take? f s = .ok none s := by
  simp [Parser.take?, input]

theorem continues_nil (close : Punct) : continues close s = .ok false s :=
  bind_apply_ok (accept_nil input _)

end

/-!
### Behind a terminal that is taken
-/

section

variable {ω : Type} {x : Parser ω} {f g : ω → Parser α} {s : State} {a : ω}

/-- Behind a step that leaves the input as it is. -/
theorem behind_left (h : Alike n (f a) (g a)) (left : x s = .ok a s) (short : s.input.length < n) :
    (x >>= f) s = (x >>= g) s := by
  rw [bind_apply_ok left, bind_apply_ok left]
  exact h.same s short

/-- Behind a step that takes a terminal there are fewer left. -/
theorem behind_taken (h : Alike (n - 1) (f a) (g a)) {next : Terminal} {rest : List Terminal}
    (input : s.input = next :: rest) (taken : x s = .ok a (s.before rest)) (short : s.input.length < n) :
    (x >>= f) s = (x >>= g) s := by
  rw [input, List.length_cons] at short
  rw [bind_apply_ok taken, bind_apply_ok taken]
  exact h.same _ (Nat.lt_sub_of_add_lt short)

end

/-- Behind the terminal there are fewer left than in front of it, so the bound may be smaller there by one. -/
theorem accept {t : Terminal} {f g : Bool → Parser α} (yes : Alike (n - 1) (f true) (g true))
    (no : Alike n (f false) (g false)) : Alike n (accept t >>= f) (Parser.accept t >>= g) where
  isLocal := (Local.accept t).bind fun found => by
    cases found with
    | true => exact yes.isLocal
    | false => exact no.isLocal
  same s short := by
    cases input : s.input with
    | nil => exact behind_left no (accept_nil input t) short
    | cons next rest =>
        by_cases same : next = t
        · have taken : Parser.accept t s = .ok true (s.before rest) := by
            simp [Parser.accept, input, same, State.before]
          exact behind_taken yes input taken short
        · have left : Parser.accept t s = .ok false s := by simp [Parser.accept, input, same]
          exact behind_left no left short

/-- Behind the terminal there are fewer left than in front of it, so the bound may be smaller there by one. -/
theorem take? {ω : Type} {op? : Terminal → Option ω} {f g : Option ω → Parser α}
    (some_ : ∀ op, Alike (n - 1) (f (some op)) (g (some op))) (none_ : Alike n (f none) (g none)) :
    Alike n (take? op? >>= f) (Parser.take? op? >>= g) where
  isLocal := (Local.take? op?).bind fun found => by
    cases found with
    | some op => exact (some_ op).isLocal
    | none => exact none_.isLocal
  same s short := by
    cases input : s.input with
    | nil => exact behind_left none_ (take?_nil input op?) short
    | cons next rest =>
        cases made : op? next with
        | some op =>
            have taken : Parser.take? op? s = .ok (some op) (s.before rest) := by
              simp [Parser.take?, input, made, State.before]
            exact behind_taken (some_ op) input taken short
        | none =>
            have left : Parser.take? op? s = .ok none s := by simp [Parser.take?, input, made]
            exact behind_left none_ left short

/-- Looking ahead takes nothing, so what is done then may depend on the terminal that has been seen. -/
theorem peek {f g : Option Terminal → Parser α} (isLocal : Local (peek >>= f))
    (h : ∀ (next : Option Terminal) (s : State), s.input.head? = next → s.input.length < n →
      f next s = g next s) : Alike n (Parser.peek >>= f) (Parser.peek >>= g) where
  isLocal
  same s short := h s.input.head? s rfl short

/-- Reading the terminal that has been looked at. -/
theorem skip {f g : Unit → Parser α} (h : Alike (n - 1) (f ()) (g ())) {s : State} {t : Terminal}
    (next : s.input.head? = some t) (short : s.input.length < n) :
    (skip >>= f) s = (Parser.skip >>= g) s := by
  obtain ⟨rest, input⟩ := List.head?_eq_some_iff.mp next
  have taken : Parser.skip s = .ok () (s.before rest) := by simp [Parser.skip, input, State.before]
  exact behind_taken h input taken short

/-- The comma is taken before the list goes on. -/
theorem continues {close : Punct} {f g : Bool → Parser α} (yes : Alike (n - 1) (f true) (g true))
    (no : Alike n (f false) (g false)) :
    Alike n (continues close >>= f) (continues close >>= g) where
  isLocal := (Local.compositional.continues close).bind fun found => by
    cases found with
    | true => exact yes.isLocal
    | false => exact no.isLocal
  same s short := by
    cases input : s.input with
    | nil => exact behind_left no (continues_nil input close) short
    | cons next rest =>
        by_cases comma : next = .punct .comma
        · have taken : Parser.accept (.punct .comma) s = .ok true (s.before rest) := by
            simp [Parser.accept, input, comma, State.before]
          have answer : Grammar.continues close s =
              .ok (rest.head? != some (.punct close)) (s.before rest) := bind_apply_ok taken
          refine behind_taken ?_ input answer short
          cases rest.head? != some (.punct close) with
          | true => exact yes
          | false => exact no.mono (Nat.sub_le n 1)
        · have left : Parser.accept (.punct .comma) s = .ok false s := by simp [Parser.accept, input, comma]
          have answer : Grammar.continues close s = .ok false s := bind_apply_ok left
          exact behind_left no answer short

/-!
### Derived steps
-/

theorem pure (a : α) : Alike n (Pure.pure a : Parser α) (Pure.pure a) :=
  refl (.pure a)

theorem build (t : Tree) : Alike n (build t) (Parser.build t) :=
  refl (.build t)

theorem expect (t : Terminal) (cause : SyntaxError) : Alike n (expect t cause) (Parser.expect t cause) :=
  refl (Local.compositional.expect t cause)

theorem leftOperand (lhs : Option Tree) : Alike n (leftOperand lhs) (Parser.leftOperand lhs) :=
  refl (Local.compositional.leftOperand lhs)

/-- Whether something is found does not depend on the bound either. -/
theorem require {p q : Production} (h : Alike n p q) (cause : SyntaxError) :
    Alike n (require p cause) (Parser.require q cause) :=
  h.bind fun found => by
    cases found with
    | some t => exact pure t
    | none => exact refl (.reject cause)

/-!
### Lists in brackets
-/

/-- One more element would be read behind a comma only. -/
theorem elements (close : Punct) {element element' : Parser Tree} {bound : Nat}
    (h : Alike n element element') (enough : n ≤ bound + 1) :
    Alike n (elements close element bound) (elements close element' (bound + 1)) := by
  induction bound generalizing n with
  | zero =>
      -- Here no terminals are left at all, so there is no comma behind the first element.
      refine h.bind fun first => (at_end (.pure _) fun s input => ?_).mono enough
      rw [bind_apply_ok (continues_nil input close)]
      rfl
  | succ bound ih =>
      refine h.bind fun first => continues ?_ (pure _)
      exact (ih (h.mono (Nat.sub_le n 1)) (Nat.sub_le_of_le_add enough)).bind fun _ => pure _

/-- The opening bracket has been taken, so the bound of what is inside is large enough. -/
theorem bracketed (close : Punct) (unclosed : SyntaxError) {all all' : Parser (List α)}
    (h : Alike n all all') : Alike n (bracketed close unclosed all) (bracketed close unclosed all') :=
  accept (pure []) (h.bind fun _ => (expect _ _).bind fun _ => pure _)

/-!
### Expressions
-/

section

variable {bound : Nat} {nested nested' : Production}

theorem entry (h : Alike n nested nested') : Alike n (entry nested) (entry nested') :=
  (require h _).bind fun _ => (expect _ _).bind fun _ => (require h _).bind fun _ => build _

/-- Whatever nests in a primary stands behind its opening bracket. -/
theorem primary (h : Alike (n - 1) nested nested') (enough : n ≤ bound + 1) :
    Alike n (primary bound nested) (primary (bound + 1) nested') := by
  have less : n - 1 ≤ bound + 1 := Nat.le_trans (Nat.sub_le n 1) enough
  refine peek (Local.compositional.primary h.isLocal bound) fun next s seen short => ?_
  split
  · exact skip ((require h _).bind fun _ => (expect _ _).bind fun _ => pure _) seen short
  · exact skip ((bracketed _ _ (elements _ (require h _) less)).bind fun _ => (build _).bind fun _ => pure _)
      seen short
  · exact skip ((bracketed _ _ (elements _ (entry h) less)).bind fun _ => (build _).bind fun _ => pure _)
      seen short
  all_goals rfl

theorem field (h : Alike (n - 1) nested nested') (enough : n ≤ bound + 1) :
    Alike n (field bound nested) (field (bound + 1) nested') := by
  refine (require (primary h enough) _).bind fun found => ?_
  split
  · exact pure _
  · exact refl (.reject _)

/-- The value of a keyword stands behind a colon. -/
theorem argument (h : Alike n nested nested') (keywordsOnly : Bool) :
    Alike n (argument nested keywordsOnly) (argument nested' keywordsOnly) := by
  refine (require h _).bind fun found => accept ?_ ?_
  · have value := (require (h.mono (Nat.sub_le n 1)) .keywordValue).bind fun value =>
      (build (.keywordArg found value)).bind fun t => pure (Argument.keyword t)
    cases isName : found.isName with
    | true => simpa [isName] using value
    | false => simpa [isName] using (refl (.reject _)).bind fun _ : Unit => value
  · cases keywordsOnly with
    | true => exact refl (.reject _)
    | false => exact pure _

/-- One more argument would be read behind a comma only. -/
theorem arguments (h : Alike n nested nested') (enough : n ≤ bound + 1) (keywordsOnly : Bool) :
    Alike n (arguments nested bound keywordsOnly) (arguments nested' (bound + 1) keywordsOnly) := by
  induction bound generalizing n keywordsOnly with
  | zero =>
      refine (argument h _).bind fun first => (at_end (.pure _) fun s input => ?_).mono enough
      rw [bind_apply_ok (continues_nil input _)]
      rfl
  | succ bound ih =>
      refine (argument h _).bind fun first => continues ?_ (pure _)
      exact (ih (h.mono (Nat.sub_le n 1)) (Nat.sub_le_of_le_add enough) _).bind fun _ => pure _

theorem application (h : Alike n nested nested') (enough : n ≤ bound + 1) (callee : Tree) :
    Alike n (application bound nested callee) (application (bound + 1) nested' callee) :=
  (bracketed _ _ (arguments h enough _)).bind fun _ => build _

theorem subscript (h : Alike n nested nested') (target : Tree) :
    Alike n (subscript nested target) (subscript nested' target) :=
  (require h _).bind fun _ => (expect _ _).bind fun _ => build _

/-- One more link would be read behind a dot or an opening bracket only. -/
theorem links (h : Alike (n - 1) nested nested') (enough : n ≤ bound + 1) (object : Tree) :
    Alike n (links nested bound object) (links nested' (bound + 1) object) := by
  induction bound generalizing n object with
  | zero =>
      refine (at_end (.pure _) fun s input => ?_).mono enough
      rw [Grammar.links, bind_apply_ok (take?_nil input _)]
  | succ bound ih =>
      have less : n - 1 ≤ bound + 1 := Nat.sub_le_of_le_add enough
      have deeper := h.mono (Nat.sub_le (n - 1) 1)
      refine take? (fun link => ?_) (pure _)
      cases link with
      | member => exact (field deeper less).bind fun _ => (build _).bind fun _ => ih deeper less _
      | call => exact (application h less _).bind fun _ => ih deeper less _
      | index => exact (subscript h _).bind fun _ => ih deeper less _

theorem chain (h : Alike (n - 1) nested nested') (enough : n ≤ bound + 1) :
    Alike n (chain bound nested) (chain (bound + 1) nested') := by
  refine (primary h enough).bind fun found => ?_
  cases found with
  | none => exact pure _
  | some first =>
      simp only
      split
      · exact (links h enough first).bind fun _ => pure _
      · exact pure _

theorem unary (h : Alike (n - 1) nested nested') (enough : n ≤ bound + 1) :
    Alike n (unary bound nested) (unary (bound + 1) nested') :=
  take? (fun _ => (require ((chain h enough).mono (Nat.sub_le n 1)) _).bind fun _ =>
    (build _).bind fun _ => pure _) (chain h enough)

end

/-- One more operand would be read behind an operator only. -/
theorem moreOperands {ω : Type} {op? : Terminal → Option ω} {node : ω → Tree → Tree → Tree}
    {operand operand' : Production} {unfinished : SyntaxError} {bound : Nat} (h : Alike n operand operand')
    (enough : n ≤ bound + 1) (lhs : Option Tree) :
    Alike n (moreOperands op? node operand unfinished bound lhs)
      (moreOperands op? node operand' unfinished (bound + 1) lhs) := by
  induction bound generalizing n lhs with
  | zero =>
      refine (at_end (.pure _) fun s input => ?_).mono enough
      rw [Grammar.moreOperands, bind_apply_ok (take?_nil input _)]
  | succ bound ih =>
      have later := h.mono (Nat.sub_le n 1)
      exact take? (fun _ => (leftOperand _).bind fun _ => (require later _).bind fun _ =>
        (build _).bind fun _ => ih later (Nat.sub_le_of_le_add enough) _) (pure _)

theorem leftLevel {ω : Type} {op? : Terminal → Option ω} {node : ω → Tree → Tree → Tree}
    {operand operand' : Production} {unfinished : SyntaxError} {bound : Nat} (h : Alike n operand operand')
    (enough : n ≤ bound + 1) :
    Alike n (leftLevel op? node operand unfinished bound)
      (leftLevel op? node operand' unfinished (bound + 1)) :=
  h.bind fun _ => moreOperands h enough _

section

variable {bound : Nat} {nested nested' : Production}

theorem multiplicative (h : Alike (n - 1) nested nested') (enough : n ≤ bound + 1) :
    Alike n (multiplicative bound nested) (multiplicative (bound + 1) nested') :=
  leftLevel (unary h enough) enough

theorem additive (h : Alike (n - 1) nested nested') (enough : n ≤ bound + 1) :
    Alike n (additive bound nested) (additive (bound + 1) nested') :=
  leftLevel (multiplicative h enough) enough

/-- The right operand stands behind the operator, where fewer terminals are left. -/
theorem relational (h : Alike (n - 1) nested nested') (enough : n ≤ bound + 1) :
    Alike n (relational bound nested) (relational (bound + 1) nested') := by
  refine (additive h enough).bind fun lhs => take? (fun op => ?_) (pure _)
  have operands := (leftOperand lhs).bind fun left =>
    (require ((additive h enough).mono (Nat.sub_le n 1)) .relationalOperand).bind fun right =>
      (build (.relational op left right)).bind fun t => pure (some t)
  by_cases member : op = .notMember
  · simpa [member] using (expect _ _).bind fun _ => member ▸ operands
  · simpa [member] using operands

theorem equality (h : Alike (n - 1) nested nested') (enough : n ≤ bound + 1) :
    Alike n (equality bound nested) (equality (bound + 1) nested') :=
  (relational h enough).bind fun _ => take? (fun _ => (leftOperand _).bind fun _ =>
    (require ((relational h enough).mono (Nat.sub_le n 1)) _).bind fun _ => (build _).bind fun _ => pure _)
    (pure _)

theorem conjunction (h : Alike (n - 1) nested nested') (enough : n ≤ bound + 1) :
    Alike n (conjunction bound nested) (conjunction (bound + 1) nested') :=
  leftLevel (equality h enough) enough

theorem disjunction (h : Alike (n - 1) nested nested') (enough : n ≤ bound + 1) :
    Alike n (disjunction bound nested) (disjunction (bound + 1) nested') :=
  leftLevel (conjunction h enough) enough

theorem conditional (h : Alike (n - 1) nested nested') (enough : n ≤ bound + 1) :
    Alike n (conditional bound nested) (conditional (bound + 1) nested') :=
  (disjunction h enough).bind fun _ => accept ((leftOperand _).bind fun _ => (require h _).bind fun _ =>
    (expect _ _).bind fun _ => (require h _).bind fun _ => (build _).bind fun _ => pure _) (pure _)

/-- The value stands behind the operator. That the target is no name is noticed at the same point with either
    bound. -/
theorem assignment (h : Alike (n - 1) nested nested') (enough : n ≤ bound + 1) :
    Alike n (assignment bound nested) (assignment (bound + 1) nested') := by
  refine (conditional h enough).bind fun lhs => take? (fun op => ?_) (pure _)
  cases lhs with
  | none => exact refl (.reject _)
  | some target =>
      have value := (require h .assignmentValue).bind fun value =>
        (build (.assignment op target value)).bind fun t => pure (some t)
      cases isName : target.isName with
      | true => simpa [isName] using value
      | false => simpa [isName] using (refl (.reject _)).bind fun _ : Unit => value

end

/-- An expression that nests one level deeper stands behind a terminal. -/
theorem expression {bound : Nat} (enough : n ≤ bound + 1) :
    Alike n (expression bound) (expression (bound + 1)) := by
  induction bound generalizing n with
  | zero =>
      refine (at_end (.pure _) fun s input => ?_).mono enough
      obtain ⟨_, built, limit⟩ := s
      cases input
      rfl
  | succ bound ih => exact assignment (ih (Nat.sub_le_of_le_add enough)) enough

/-!
### Statements
-/

section

variable {bound : Nat} {nested nested' : Production} {inside inside' : Parser Tree}

/-- One more clause would be read behind an `elif` only. -/
theorem clauses (h : Alike n nested nested') (hinside : Alike n inside inside') (enough : n ≤ bound + 1) :
    Alike n (clauses nested inside bound) (clauses nested' inside' (bound + 1)) := by
  have clause {n : Nat} (h : Alike n nested nested') (hinside : Alike n inside inside') :
      Alike n (clauses.clause nested inside) (clauses.clause nested' inside') :=
    (require h _).bind fun _ => hinside.bind fun _ => build _
  induction bound generalizing n with
  | zero =>
      refine (clause h hinside).bind fun first => (at_end (.pure _) fun s input => ?_).mono enough
      rw [bind_apply_ok (accept_nil input _)]
      rfl
  | succ bound ih =>
      have less := Nat.sub_le n 1
      exact (clause h hinside).bind fun first => accept ((ih (h.mono less) (hinside.mono less)
        (Nat.sub_le_of_le_add enough)).bind fun _ => pure _) (pure _)

theorem choice (h : Alike n nested nested') (hinside : Alike n inside inside') (enough : n ≤ bound + 1) :
    Alike n (choice nested inside bound) (choice nested' inside' (bound + 1)) := by
  have otherwise : Alike n (otherwise inside) (otherwise inside') :=
    accept ((hinside.mono (Nat.sub_le n 1)).bind fun _ => pure _) (pure _)
  exact (clauses h hinside enough).bind fun _ => otherwise.bind fun _ => (expect _ _).bind fun _ => build _

/-- One more variable would be read behind a comma only. -/
theorem loopVariables (enough : n ≤ bound + 1) :
    Alike n (loopVariables bound) (loopVariables (bound + 1)) := by
  have var {n : Nat} : Alike n (Parser.require name .loopVariable) (Parser.require name .loopVariable) :=
    require (refl Local.compositional.name) _
  induction bound generalizing n with
  | zero =>
      refine var.bind fun first => (at_end (.pure _) fun s input => ?_).mono enough
      rw [bind_apply_ok (accept_nil input _)]
      rfl
  | succ bound ih =>
      exact var.bind fun first => accept ((ih (Nat.sub_le_of_le_add enough)).bind fun _ => pure _) (pure _)

theorem loop (h : Alike n nested nested') (hinside : Alike n inside inside') (enough : n ≤ bound + 1) :
    Alike n (loop nested inside bound) (loop nested' inside' (bound + 1)) :=
  (loopVariables enough).bind fun _ => (expect _ _).bind fun _ => (require h _).bind fun _ =>
    hinside.bind fun _ => (expect _ _).bind fun _ => build _

end

end Alike

/-!
### Statements take terminals

Nothing else keeps the loop over statements from running out of its bound. That every statement found is
derived from what it has taken is known for readings without a limit, and a limit only makes readings fail.
-/

/-- A statement that is found has taken a terminal, whatever the limit. -/
theorem length_lt_of_statement {bound : Nat} {s s' : State} {t : Tree} (enough : s.input.length ≤ bound)
    (run : statement bound s = .ok (some t) s') : s'.input.length < s.input.length := by
  have free := (Cutoff.compositional.statement bound).ok run
  obtain ⟨o, built', rest, derived⟩ := (reads_statement bound enough).sound s.built (some t) _ free
  have same : s'.input = o := congrArg State.input rest
  rw [same]
  exact derived.length_add_least

/-- At the end of the input there is no statement, with any bound. -/
theorem statement_nil {s : State} (input : s.input = []) (bound : Nat) : statement bound s = .ok none s := by
  obtain ⟨_, built, limit⟩ := s
  cases input
  cases bound <;> rfl

namespace Alike

/-- One more statement would be read only if there is a terminal for it to begin with. -/
theorem statements {within : Nat} (h : Alike n (statement within) (statement (within + 1)))
    (enough : n ≤ within + 1) {bound : Nat} (enough' : n ≤ bound + 1) :
    Alike n (statements (statement within) bound) (statements (statement (within + 1)) (bound + 1)) := by
  induction bound generalizing n with
  | zero =>
      refine (at_end (.pure _) fun s input => ?_).mono enough'
      rw [Grammar.statements, bind_apply_ok (statement_nil input _)]
  | succ bound ih =>
      have less := Nat.sub_le n 1
      have others := ih (h.mono less) (Nat.le_trans less enough) (Nat.sub_le_of_le_add enough')
      refine ⟨h.isLocal.bind fun found => ?_, fun s short => ?_⟩
      · cases found with
        | none => exact .pure _
        | some first => exact others.isLocal.bind fun _ => .pure _
      · have first := h.same s short
        rw [Grammar.statements, Grammar.statements]
        cases run : statement within s with
        | error e s' => rw [bind_apply_error run, bind_apply_error (first ▸ run)]
        | ok found s' =>
            rw [bind_apply_ok run, bind_apply_ok (first ▸ run)]
            cases found with
            | none => rfl
            | some t =>
                -- The others are read from fewer terminals, which is what one bound less is enough for.
                have fits : s.input.length ≤ within := Nat.le_of_lt_succ (Nat.lt_of_lt_of_le short enough)
                have taken := length_lt_of_statement fits run
                have later : s'.input.length < n - 1 := by omega
                exact (others.bind fun _ => pure _).same s' later

/-- The body is empty with either bound or with neither. -/
theorem body {within : Nat} (h : Alike n (statement within) (statement (within + 1)))
    (enough : n ≤ within + 1) :
    Alike n (body (statement within) within) (body (statement (within + 1)) (within + 1)) := by
  refine (statements h enough enough).bind fun all => ?_
  cases all with
  | nil => exact build _
  | cons first others => exact build _

/-- A statement inside a statement stands behind the keyword that opens the outer one. -/
theorem statement {bound : Nat} (enough : n ≤ bound + 1) :
    Alike n (statement bound) (statement (bound + 1)) := by
  induction bound generalizing n with
  | zero =>
      refine (at_end (.pure _) fun s input => ?_).mono enough
      exact (statement_nil input 0).trans (statement_nil input 1).symm
  | succ bound ih =>
      have less : n - 1 ≤ bound + 1 := Nat.sub_le_of_le_add enough
      have inside := body (ih less) less
      refine take? (fun opening => ?_) (expression enough)
      cases opening with
      | choice => exact (choice (expression less) inside less).bind fun _ => pure _
      | loop => exact (loop (expression less) inside less).bind fun _ => pure _
      | jump kind => exact (build _).bind fun _ => pure _

/-- The whole program is read alike with one more, if the bound is as large as the number of terminals. -/
theorem program {bound : Nat} (enough : n ≤ bound + 1) : Alike n (program bound) (program (bound + 1)) := by
  refine (body (statement enough) enough).bind fun root => refl (Local.peek.bind fun next => ?_)
  cases next with
  | none => exact .pure _
  | some t => exact .reject _

end Alike

/-- A program is read in the same way whatever the bound, as long as no more terminals are left. -/
theorem program_eq_of_le {s : State} {bound bound' : Nat} (enough : s.input.length ≤ bound)
    (le : bound ≤ bound') : program bound s = program bound' s := by
  induction bound', le using Nat.le_induction with
  | base => rfl
  | succ bound' le ih =>
      have one_more : Alike (bound' + 1) (program bound') (program (bound' + 1)) := .program (Nat.le_refl _)
      exact ih.trans (one_more.same s (Nat.lt_succ_of_le (Nat.le_trans enough le)))

end Parser

end BuildScript
