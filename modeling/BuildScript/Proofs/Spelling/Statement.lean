/-
Module: BuildScript.Proofs.Spelling.Statement
Layer: proofs about the spelling
Purpose: The lines that statements are written by are read as the statements. Statements are separated by
  space alone, so what is left to show is that none is read as more of the expression in front of it.
Main exports: lineTerminals, EndsBody, derives_statement, derives_body
-/
import BuildScript.Proofs.Spelling.Expression
import BuildScript.Proofs.Tree.Proper

namespace BuildScript

open Grammar

namespace Tree

/-- What the grammar sees of lines. -/
def lineTerminals (lines : List Line) : List Terminal :=
  lines.flatMap fun line => Piece.terminals line.pieces

@[simp]
theorem lineTerminals_nil : lineTerminals [] = [] :=
  rfl

@[simp]
theorem lineTerminals_cons (line : Line) (lines : List Line) :
    lineTerminals (line :: lines) = Piece.terminals line.pieces ++ lineTerminals lines :=
  List.flatMap_cons

@[simp]
theorem lineTerminals_append (lines others : List Line) :
    lineTerminals (lines ++ others) = lineTerminals lines ++ lineTerminals others :=
  List.flatMap_append

/-!
### Behind an expression
-/

/-- The text of pieces begins with that of the first. -/
theorem startsWith_join {opening : String} {p : Piece} (text : p.text = opening) (ps : List Piece) :
    (Piece.join (p :: ps)).startsWith opening = true := by
  rw [String.startsWith_string_iff, Piece.join, List.map_cons, String.join_cons, String.toList_append, text]
  exact List.prefix_append _ _

/-- What begins like an expression and is no continuation goes on with no operand. -/
theorem stops_of_leads {tight : Bool} {ps : List Piece} (leads : Leads tight ps)
    (apart : isContinuation (Piece.join ps) = false) (rest : List Terminal) :
    Stops .assignment (Piece.terminals ps ++ rest) := by
  have other {opening : String} (member : opening ∈ continuations)
      (begins : (Piece.join ps).startsWith opening = true) : False :=
    Bool.eq_false_iff.mp apart (List.any_eq_true.mpr ⟨opening, member, begins⟩)
  cases leads with
  | @primary _ p t qs terminal begins =>
      rw [Piece.terminals_cons terminal]
      apply stops_of_isLooserOperator
      cases p with
      | keyword word =>
          cases terminal
          cases word <;> first | rfl | cases begins
      | sign s =>
          cases terminal
          cases s with
          | leftParen => exact (other (by decide) (startsWith_join rfl qs)).elim
          | leftBracket => exact (other (by decide) (startsWith_join rfl qs)).elim
          | leftBrace => rfl
          | _ => cases begins
      | opening => exact (other (by decide) (startsWith_join rfl qs)).elim
      | closing =>
          cases terminal
          cases begins
      | space => cases terminal
      | _ =>
          cases terminal
          rfl
  | @plus qs => exact (other (by decide) (startsWith_join rfl qs)).elim
  | @minus qs => exact (other (by decide) (startsWith_join rfl qs)).elim
  | @not qs =>
      have begins : (Piece.join (.keyword .kwNot :: .space :: qs)).startsWith "not " = true := by
        rw [String.startsWith_string_iff, Piece.join, List.map_cons, List.map_cons, String.join_cons,
          String.join_cons, ← String.append_assoc, String.toList_append]
        exact List.prefix_append _ _
      exact (other (by decide) begins).elim

/-!
### Ends of bodies
-/

/-- In front of `rest` a body ends: no statement begins, and no expression goes on. -/
structure EndsBody (rest : List Terminal) : Prop where
  none : Derives .statement rest none rest
  stops : Stops .assignment rest

/-- A body may end with the source. -/
theorem endsBody_nil : EndsBody [] where
  none := .expression rfl (.none_of_other rfl .assignment)
  stops := stops_nil _

/-- The words that end a body. -/
def isBodyEnd (word : Keyword) : Bool :=
  [Keyword.kwElif, .kwElse, .kwEndif, .kwEndforeach].contains word

/-- No statement begins with a word that ends bodies, and no expression goes on with one. -/
theorem endsBody_keyword {word : Keyword} (ends : isBodyEnd word = true) (rest : List Terminal) :
    EndsBody (.keyword word :: rest) where
  none := by
    refine .expression ?_ (.none_of_other ?_ .assignment)
    · cases word <;> first | rfl | cases ends
    · cases word <;> first | rfl | cases ends
  stops := by
    apply stops_of_endsOperand
    cases word <;> first | rfl | cases ends

/-- In front of `rest` the clauses of a conditional end. -/
structure EndsClauses (rest : List Terminal) : Prop extends EndsBody rest where
  noElif : Starts (· == .keyword .kwElif) rest = false

/-- Clauses end in front of any word that ends bodies, except for `elif`. -/
theorem endsClauses_keyword {word : Keyword} (ends : isBodyEnd word = true) (other : word ≠ .kwElif)
    (rest : List Terminal) : EndsClauses (.keyword word :: rest) where
  toEndsBody := endsBody_keyword ends rest
  noElif := by simpa [Starts] using other

/-!
### Lines that are written
-/

/-- A conditional that has been written has a clause, and its last line is `endif`. -/
theorem conditional_eq_ok {depth : Nat} {clauses : List Tree} {otherwise : Option Tree}
    {lines : List Line} (h : statement depth (.conditional clauses otherwise) = .ok lines) :
    clauses ≠ [] ∧ ∃ first second, clauseLines depth .kwIf clauses = .ok first ∧
      elseLines depth otherwise = .ok second ∧
      lines = first ++ second ++ [⟨depth, [.keyword .kwEndif]⟩] := by
  cases clauses with
  | nil => cases h
  | cons t ts =>
      simp only [statement, List.isEmpty_cons, Bool.false_eq_true, if_false, bind_eq_ok] at h
      obtain ⟨first, clauses, second, otherwise, ⟨⟩⟩ := h
      exact ⟨by simp, first, second, clauses, otherwise, rfl⟩

/-- Statements that have been written are each written by itself, and none continues an expression in front of
    it. -/
theorem statementLines_cons_eq_ok {depth : Nat} {after : Bool} {t : Tree} {ts : List Tree}
    {lines : List Line} (h : statementLines depth after (t :: ts) = .ok lines) :
    ∃ first others, t.statement depth = .ok first ∧ (after = true → areContinuation first = false) ∧
      statementLines depth t.endsInExpression ts = .ok others ∧ lines = first ++ others := by
  simp only [statementLines, bind_eq_ok] at h
  obtain ⟨first, one, rest⟩ := h
  split at rest
  · cases rest
  · rename_i apart
    obtain ⟨others, more, ⟨⟩⟩ := bind_eq_ok.mp rest
    refine ⟨first, others, one, fun behind => ?_, more, rfl⟩
    simpa [behind] using apart

/-- Clauses that have been written are clauses indeed. The first has its own word in front, and each of the
    others has `elif`. -/
theorem clauseLines_cons_eq_ok {depth : Nat} {word : Keyword} {t : Tree} {ts : List Tree}
    {lines : List Line} (h : clauseLines depth word (t :: ts) = .ok lines) :
    ∃ predicate body ps inside others, t = .clause predicate body ∧ predicate.bare = .ok ps ∧
      body.body (depth + 1) true = .ok inside ∧ clauseLines depth .kwElif ts = .ok others ∧
      lines = ⟨depth, .keyword word :: .space :: ps⟩ :: inside ++ others := by
  cases t with
  | clause predicate body =>
      simp only [clauseLines, bind_eq_ok] at h
      obtain ⟨ps, choice, inside, inner, others, rest, ⟨⟩⟩ := h
      exact ⟨predicate, body, ps, inside, others, rfl, choice, inner, rest, rfl⟩
  | missing what => cases what <;> cases h
  | _ => cases h

/-!
### First lines
-/

/-- How the first line of a statement begins. -/
inductive Opens : List Piece → Prop where
  | expression {ps} (leads : Leads false ps) : Opens ps
  | word {word ps} (begins : beginsStatement (.keyword word) = true) : Opens (.keyword word :: ps)

/-- Every statement that has been written has a first line, and that line tells where it begins. -/
theorem opens_statement {t : Tree} {depth : Nat} {lines : List Line} (h : t.statement depth = .ok lines) :
    ∃ line others, lines = line :: others ∧ Opens line.pieces := by
  have bare {ps : List Piece} (h : t.bare = .ok ps) : Opens ps := .expression (readFrom_bare h).leads.loose
  cases t with
  | conditional clauses otherwise =>
      obtain ⟨nonempty, first, second, all, -, rfl⟩ := conditional_eq_ok h
      obtain ⟨t, ts, rfl⟩ := List.exists_cons_of_ne_nil nonempty
      obtain ⟨_, _, ps, inside, others, -, -, -, -, rfl⟩ := clauseLines_cons_eq_ok all
      exact ⟨_, _, rfl, .word rfl⟩
  | foreach vars iterable body =>
      simp only [statement, bind_eq_ok] at h
      obtain ⟨names, -, range, -, inside, -, ⟨⟩⟩ := h
      exact ⟨_, _, rfl, .word rfl⟩
  | jump kind =>
      cases h
      cases kind with
      | stop => exact ⟨_, _, rfl, .word rfl⟩
      | skip => exact ⟨_, _, rfl, .word rfl⟩
  | empty | sequence | clause | keywordArg | keyValue => cases h
  | _ =>
      obtain ⟨ps, written, ⟨⟩⟩ := bind_eq_ok.mp h
      exact ⟨_, _, rfl, bare written⟩

/-- Lines behind an expression that are no continuation go on with no operand. -/
theorem stops_of_statement {t : Tree} {depth : Nat} {lines : List Line}
    (h : t.statement depth = .ok lines) (apart : areContinuation lines = false) (rest : List Terminal) :
    Stops .assignment (lineTerminals lines ++ rest) := by
  obtain ⟨⟨_, ps⟩, others, rfl, opens⟩ := opens_statement h
  rw [lineTerminals_cons, List.append_assoc]
  cases opens with
  | expression leads => exact stops_of_leads leads apart _
  | @word word _ begins =>
      apply stops_of_endsOperand
      cases word <;> first | rfl | cases begins

/-!
### Loop variables
-/

/-- Loop variables are read as they are written, with commas in between. -/
theorem derives_loopVariables : ∀ {vars : List Tree} {names : List Piece}, vars ≠ [] →
    vars.mapM plainName = .ok names → ∀ r,
    Derives .loopVariables
      (Piece.terminals (Piece.separated (names.map ([·]))) ++ .punct .colon :: r) vars
      (.punct .colon :: r)
  | [], _, nonempty, _, _ => absurd rfl nonempty
  | [t], _, _, h, r => by
      rw [List.mapM_cons, bind_eq_ok] at h
      obtain ⟨p, plain, ⟨⟩⟩ := h
      obtain ⟨text, rfl, rfl, -⟩ := plainName_eq_ok plain
      exact .lastVariable rfl
  | t :: u :: vars, _, _, h, r => by
      rw [List.mapM_cons, bind_eq_ok] at h
      obtain ⟨p, plain, h⟩ := h
      obtain ⟨ps, others, ⟨⟩⟩ := bind_eq_ok.mp h
      obtain ⟨text, rfl, rfl, -⟩ := plainName_eq_ok plain
      have rest := derives_loopVariables (by simp) others r
      rw [List.mapM_cons, bind_eq_ok] at others
      obtain ⟨q, -, others⟩ := others
      obtain ⟨qs, -, ⟨⟩⟩ := bind_eq_ok.mp others
      rw [List.map_cons, List.map_cons, Piece.separated_cons]
      exact .nextVariable rest

/-!
### Statements
-/

/-- An expression by itself is read as a statement if nothing behind goes on with it. -/
theorem derives_expression {t : Tree} {depth : Nat} {lines : List Line}
    (h : (do let pieces ← t.bare; return [⟨depth, pieces⟩] : Spelling (List Line)) = .ok lines)
    (r : List Terminal) (stops : Stops .assignment r) :
    Derives .statement (lineTerminals lines ++ r) (some t) r := by
  obtain ⟨pieces, written, ⟨⟩⟩ := bind_eq_ok.mp h
  have reading := readFrom_bare written
  have other : Starts beginsStatement (Piece.terminals pieces ++ r) = false := by
    obtain ⟨first, ts, seen, begins⟩ := reading.leads.terminals
    rw [seen]
    cases first with
    | keyword word =>
        cases word <;> first | rfl | simp [beginsPrimary, isPrefixOp] at begins
    | _ => rfl
  simpa using Derives.expression other (reading.whole r stops)

mutual
/-- The lines of a statement are read as it. -/
theorem derives_statement : ∀ (t : Tree) {depth : Nat} {lines : List Line}, t.isProper = true →
    t.statement depth = .ok lines → ∀ r, (t.endsInExpression = true → Stops .assignment r) →
    Derives .statement (lineTerminals lines ++ r) (some t) r
  | .conditional clauses none, _, _, proper, h, r, _ => by
      simp only [isProper, Bool.and_eq_true] at proper
      obtain ⟨nonempty, first, second, all, none, rfl⟩ := conditional_eq_ok h
      cases none
      obtain ⟨ts, seen, derives⟩ := derives_clauses clauses nonempty proper.1 all
      have derived := derives (.keyword .kwEndif :: r) (endsClauses_keyword rfl (by decide) r)
      simpa [seen] using Derives.choice derived
  | .conditional clauses (some body), _, _, proper, h, r, _ => by
      simp only [isProper, isProperElse, Bool.and_eq_true] at proper
      obtain ⟨nonempty, first, second, all, otherwise, rfl⟩ := conditional_eq_ok h
      obtain ⟨inside, inner, ⟨⟩⟩ := bind_eq_ok.mp otherwise
      obtain ⟨ts, seen, derives⟩ := derives_clauses clauses nonempty proper.1 all
      have last := (derives_body body proper.2.2 inner (.keyword .kwEndif :: r)
        (endsBody_keyword rfl r)).1
      have derived := derives (.keyword .kwElse :: (lineTerminals inside ++ .keyword .kwEndif :: r))
        (endsClauses_keyword rfl (by decide) _)
      simpa [seen] using Derives.choiceElse derived last
  | .foreach vars iterable body, _, _, proper, h, r, _ => by
      simp only [isProper, Bool.and_eq_true, Bool.not_eq_true', List.isEmpty_eq_false_iff] at proper
      obtain ⟨⟨⟨⟨nonempty, -⟩, -⟩, -⟩, proper⟩ := proper
      simp only [statement, bind_eq_ok] at h
      obtain ⟨names, plain, range, inner, inside, each, ⟨⟩⟩ := h
      obtain ⟨derived, stops⟩ := derives_body body proper each (.keyword .kwEndforeach :: r)
        (endsBody_keyword rfl r)
      have whole := (readFrom_bare inner).whole _ (stops rfl)
      simpa [between] using Derives.loop (derives_loopVariables nonempty plain _) whole derived
  | .jump kind, _, _, _, h, _, _ => by
      cases h
      cases kind with
      | stop => exact .stop
      | skip => exact .skip
  | .assignment .., _, _, _, h, r, ends | .unary .., _, _, _, h, r, ends
  | .logical .., _, _, _, h, r, ends | .ternary .., _, _, _, h, r, ends
  | .arithmetic .., _, _, _, h, r, ends | .relational .., _, _, _, h, r, ends
  | .member .., _, _, _, h, r, ends | .index .., _, _, _, h, r, ends
  | .application .., _, _, _, h, r, ends | .name .., _, _, _, h, r, ends
  | .bool .., _, _, _, h, r, ends | .number .., _, _, _, h, r, ends
  | .string .., _, _, _, h, r, ends | .array .., _, _, _, h, r, ends
  | .dictionary .., _, _, _, h, r, ends | .missing .., _, _, _, h, r, ends =>
      derives_expression h r (ends rfl)

/-- The lines of a body are read as it, and go on with no operand that stands in front. -/
theorem derives_body : ∀ (t : Tree) {depth : Nat} {after : Bool} {lines : List Line}, t.isProper = true →
    t.body depth after = .ok lines → ∀ r, EndsBody r →
    Derives .body (lineTerminals lines ++ r) t r ∧
      (after = true → Stops .assignment (lineTerminals lines ++ r))
  | .empty, _, _, _, _, h, r, ends => by
      cases h
      exact ⟨.emptyBody (.statementsEnd ends.none), fun _ => ends.stops⟩
  | .sequence [], _, _, _, proper, _, _, _ => by simp [isProper] at proper
  | .sequence (t :: ts), _, _, _, proper, h, r, ends => by
      simp only [isProper, Bool.and_eq_true] at proper
      obtain ⟨derived, stops⟩ := derives_statements (t :: ts) proper.2 h r ends
      exact ⟨.body derived, stops⟩

/-- The lines of statements are read as them. Behind an expression they go on with no operand. -/
theorem derives_statements : ∀ (ts : List Tree) {depth : Nat} {after : Bool} {lines : List Line},
    areProper ts = true → statementLines depth after ts = .ok lines → ∀ r, EndsBody r →
    Derives .statements (lineTerminals lines ++ r) ts r ∧
      (after = true → Stops .assignment (lineTerminals lines ++ r))
  | [], _, _, _, _, h, r, ends => by
      cases h
      exact ⟨.statementsEnd ends.none, fun _ => ends.stops⟩
  | t :: ts, _, _, _, proper, h, r, ends => by
      simp only [areProper, Bool.and_eq_true] at proper
      obtain ⟨first, others, one, apart, rest, rfl⟩ := statementLines_cons_eq_ok h
      obtain ⟨more, stops⟩ := derives_statements ts proper.2 rest r ends
      -- If the statement ends in an expression, the lines behind it must let that end there.
      have derived := derives_statement t proper.1 one (lineTerminals others ++ r) stops
      rw [lineTerminals_append, List.append_assoc]
      exact ⟨.statements derived more, fun behind => stops_of_statement one (apart behind) _⟩

/-- The word in front of the first clause has been read before the clauses are. -/
theorem derives_clauses : ∀ (clauses : List Tree) {depth : Nat} {word : Keyword} {lines : List Line},
    clauses ≠ [] → areProper clauses = true → clauseLines depth word clauses = .ok lines →
    ∃ ts, lineTerminals lines = .keyword word :: ts ∧
      ∀ r, EndsClauses r → Derives .clauses (ts ++ r) clauses r
  | [], _, _, _, nonempty, _, _ => absurd rfl nonempty
  | .clause predicate body :: rest, _, _, _, _, proper, h => by
      simp only [areProper, isProper, Bool.and_eq_true] at proper
      simp only [clauseLines, bind_eq_ok] at h
      obtain ⟨ps, choice, inside, inner, others, more, ⟨⟩⟩ := h
      refine ⟨Piece.terminals ps ++ (lineTerminals inside ++ lineTerminals others), by simp, ?_⟩
      intro r ends
      have reading := readFrom_bare choice
      -- What ends the body is either the word behind all clauses or the `elif` of the next.
      cases rest with
      | nil =>
          cases more
          obtain ⟨derived, stops⟩ := derives_body body proper.1.2 inner r ends.toEndsBody
          simpa using Derives.clause (reading.whole _ (stops rfl)) derived ends.noElif
      | cons second rest =>
          obtain ⟨ts, seen, derives⟩ := derives_clauses (second :: rest) (by simp) proper.2 more
          obtain ⟨derived, stops⟩ := derives_body body proper.1.2 inner (.keyword .kwElif :: (ts ++ r))
            (endsBody_keyword rfl _)
          simpa [seen] using Derives.clauses (reading.whole _ (stops rfl)) derived (derives r ends)
end

end Tree

end BuildScript
