/-
Module: BuildScript.Proofs.Grammar.Acceptance
Layer: proofs about the grammar
Purpose: A source is accepted exactly if it consists of tokens and the grammar derives it, and the program
  that is read is the tree of the derivation.
Main exports: reads_statement, readTree_eq_ok, parse_eq_ok_iff_derives
-/
import BuildScript.Proofs.Arena.Canonical
import BuildScript.Proofs.Grammar.Recognition

namespace BuildScript

namespace Grammar

open BuildScript.Parser

variable {i : List Terminal}

/-!
### Bodies
-/

section

variable {statement : Production} {n : Nat}
  (reads_statement : ∀ i : List Terminal, i.length ≤ n → Reads statement i (Derives .statement i))

include reads_statement

/-- Statements are found until none begins. -/
theorem reads_statements {bound : Nat} (small : bound ≤ n) (enough : i.length ≤ bound) :
    Reads (statements statement bound) i (Derives .statements i) := by
  induction bound generalizing i with
  | zero =>
      obtain rfl := List.length_eq_zero_iff.mp (Nat.le_zero.mp enough)
      apply Reads.congr (.pure _)
      intro all o
      constructor
      · intro h
        obtain ⟨rfl, rfl⟩ := h
        exact .statementsEnd (.expression rfl (.none_of_other rfl _))
      · intro h
        cases h with
        | statementsEnd none => exact ⟨rfl, List.length_eq_zero_iff.mp (Nat.le_zero.mp none.length_le)⟩
        | statements one rest => exact absurd one.length_add_least (by simp [Phrase.least])
  | succ bound ih =>
      refine .congr (.option (reads_statement i (Nat.le_trans enough small)) (fun m _ => .pure [])
        fun first m h => .bind (ih (Nat.le_of_succ_le small) ?_) fun others _ _ => .pure _) fun all o => ?_
      · have taken : m.length + 1 ≤ i.length := h.length_add_least
        omega
      · constructor
        · intro h
          rcases h with ⟨_, h, rfl, rfl⟩ | ⟨first, m, h, others, _, rest, rfl, rfl⟩
          · exact .statementsEnd h
          · exact .statements h rest
        · intro h
          cases h with
          | statementsEnd none => exact .inl ⟨_, none, rfl, rfl⟩
          | statements one rest => exact .inr ⟨_, _, one, _, _, rest, rfl, rfl⟩

/-- The body that statements make up. -/
def bodyOf : List Tree → Tree
  | [] => .empty
  | first :: others => .sequence (first :: others)

/-- A body without a statement is empty. -/
theorem reads_body {bound : Nat} (small : bound ≤ n) (enough : i.length ≤ bound) :
    Reads (body statement bound) i (Derives .body i) := by
  refine .congr (.bind (E := fun all m t o => o = m ∧ t = bodyOf all)
    (reads_statements reads_statement small enough) fun all m _ => ?_) fun t o => ?_
  · cases all with
    | nil => exact .congr (.build _) fun t o => And.comm
    | cons first others => exact .congr (.build _) fun t o => And.comm
  · constructor
    · intro h
      obtain ⟨all, _, h, rfl, rfl⟩ := h
      cases all with
      | nil => exact .emptyBody h
      | cons first others => exact .body h
    · intro h
      cases h with
      | emptyBody all => exact ⟨[], o, all, rfl, rfl⟩
      | body all => exact ⟨_, o, all, rfl, rfl⟩

end

/-!
### Statements
-/

theorem reads_loopVariable : Reads (require name .loopVariable) i fun t o =>
    ∃ text, i = .name text :: o ∧ t = .name text := by
  apply Reads.congr (.require reads_name _)
  intro t o
  constructor
  · intro h
    rcases h with ⟨text, rfl, h⟩ | ⟨_, h, _⟩
    · cases h
      exact ⟨text, rfl, rfl⟩
    · cases h
  · intro h
    obtain ⟨text, rfl, rfl⟩ := h
    exact .inl ⟨text, rfl, rfl⟩

/-- Variables are names with commas in between. -/
theorem reads_loopVariables {bound : Nat} (enough : i.length ≤ bound) :
    Reads (loopVariables bound) i (Derives .loopVariables i) := by
  induction bound generalizing i with
  | zero =>
      obtain rfl := List.length_eq_zero_iff.mp (Nat.le_zero.mp enough)
      apply Reads.congr (.bind reads_loopVariable fun first m _ => .pure _)
      intro all o
      constructor
      · intro h
        obtain ⟨_, _, ⟨_, ⟨⟩, _⟩, _⟩ := h
      · intro h
        cases h
  | succ bound ih =>
      refine .congr (.bind reads_loopVariable fun first m h =>
        .accept (fun k input => .bind (ih ?_) fun others _ _ => .pure _) fun other => .pure _)
        fun all o => ?_
      · obtain ⟨text, rfl, rfl⟩ := h
        subst input
        simp only [List.length_cons] at enough
        omega
      · constructor
        · intro h
          rcases h with ⟨first, m, ⟨text, rfl, rfl⟩, ⟨k, rfl, others, _, rest, rfl, rfl⟩ | ⟨ends, rfl, rfl⟩⟩
          · exact .nextVariable rest
          · exact .lastVariable ends
        · intro h
          cases h with
          | lastVariable ends => exact ⟨_, _, ⟨_, rfl, rfl⟩, .inr ⟨ends, rfl, rfl⟩⟩
          | nextVariable rest => exact ⟨_, _, ⟨_, rfl, rfl⟩, .inl ⟨_, rfl, _, _, rest, rfl, rfl⟩⟩

section

variable {nested : Production} {inside : Parser Tree} {n : Nat}
  (reads_nested : ∀ i : List Terminal, i.length ≤ n → Reads nested i (Derives expr i))
  (reads_inside : ∀ i : List Terminal, i.length ≤ n → Reads inside i (Derives .body i))

include reads_nested reads_inside

/-- A clause is a predicate and a body. -/
theorem reads_clause (short : i.length ≤ n) :
    Reads (clauses.clause nested inside) i fun t o => ∃ predicate m b,
      Derives expr i (some predicate) m ∧ Derives .body m b o ∧ t = .clause predicate b := by
  refine .congr (.bind (.require (reads_nested i short) _) fun predicate m h =>
    .bind (reads_inside m (Nat.le_trans h.length_le short)) fun b k _ => .build _) fun t o => ?_
  constructor
  · intro h
    obtain ⟨predicate, m, h, b, _, body, rfl, rfl⟩ := h
    exact ⟨predicate, m, b, h, body, rfl⟩
  · intro h
    obtain ⟨predicate, m, b, h, body, rfl⟩ := h
    exact ⟨predicate, m, h, b, o, body, rfl, rfl⟩

/-- Behind each `elif` there is one more clause. -/
theorem reads_clauses {bound : Nat} (small : bound ≤ n) (enough : i.length ≤ bound) :
    Reads (clauses nested inside bound) i (Derives .clauses i) := by
  induction bound generalizing i with
  | zero =>
      refine .congr (.bind (reads_clause reads_nested reads_inside (Nat.le_trans enough small))
        fun first m _ => .pure _) fun all o => ?_
      have nothing : ∀ {t m}, ¬ Derives expr i (some t) m := fun h => by
        have taken := h.length_lt
        omega
      constructor
      · intro h
        obtain ⟨_, _, ⟨_, _, _, h, _⟩, _⟩ := h
        exact (nothing h).elim
      · intro h
        cases h with
        | clause h => exact (nothing h).elim
        | clauses h => exact (nothing h).elim
  | succ bound ih =>
      refine .congr (.bind (reads_clause reads_nested reads_inside (Nat.le_trans enough small))
        fun first m h => .accept (fun k input => .bind (ih (Nat.le_of_succ_le small) ?_)
          fun others _ _ => .pure _) fun other => .pure _) fun all o => ?_
      · obtain ⟨predicate, l, b, h, body, rfl⟩ := h
        have taken := h.length_lt
        have body_le := body.length_le
        subst input
        simp only [List.length_cons] at body_le
        omega
      · constructor
        · rintro ⟨_, _, ⟨predicate, m, b, h, body, rfl⟩,
            ⟨k, rfl, others, _, rest, rfl, rfl⟩ | ⟨ends, rfl, rfl⟩⟩
          · exact .clauses h body rest
          · exact .clause h body ends
        · intro h
          cases h with
          | clause inner body ends => exact ⟨_, _, ⟨_, _, _, inner, body, rfl⟩, .inr ⟨ends, rfl, rfl⟩⟩
          | clauses inner body rest =>
              exact ⟨_, _, ⟨_, _, _, inner, body, rfl⟩, .inl ⟨_, rfl, _, _, rest, rfl, rfl⟩⟩

omit reads_nested in
/-- The last branch is there when its word is. -/
theorem reads_otherwise (short : i.length ≤ n) :
    Reads (otherwise inside) i fun found o =>
      (∃ m b, i = .keyword .kwElse :: m ∧ Derives .body m b o ∧ found = some b) ∨
        (Starts (· == .keyword .kwElse) i = false ∧ found = none ∧ o = i) := by
  refine .congr (.accept (fun m input => .bind (reads_inside m ?_) fun b _ _ => .pure (some b))
    fun other => .pure none) fun found o => ?_
  · subst input
    exact Nat.le_of_succ_le short
  · constructor
    · intro h
      rcases h with ⟨m, rfl, b, _, h, rfl, rfl⟩ | other
      · exact .inl ⟨m, b, rfl, h, rfl⟩
      · exact .inr other
    · intro h
      rcases h with ⟨m, b, rfl, h, rfl⟩ | other
      · exact .inl ⟨m, rfl, b, o, h, rfl, rfl⟩
      · exact .inr other

/-- A conditional is its clauses, perhaps a last branch, and the word that ends it. -/
theorem reads_choice {bound : Nat} (small : bound ≤ n) (enough : i.length ≤ bound) :
    Reads (choice nested inside bound) i fun t o =>
      Derives .statement (.keyword .kwIf :: i) (some t) o := by
  refine .congr (.bind (reads_clauses reads_nested reads_inside small enough) fun cs m h =>
    .bind (reads_otherwise reads_inside ?_) fun otherwise k _ => .expect fun o _ => .build _) fun t o => ?_
  · exact Nat.le_trans h.length_le (Nat.le_trans enough small)
  · constructor
    · intro h
      rcases h with ⟨cs, m, h, _, _, ⟨m, b, rfl, body, rfl⟩ | ⟨_, rfl, rfl⟩, _, rfl, rfl, rfl⟩
      · exact .choiceElse h body
      · exact .choice h
    · intro h
      cases h with
      | expression other => simp [Starts, beginsStatement] at other
      | choice clauses => exact ⟨_, _, clauses, _, _, .inr ⟨rfl, rfl, rfl⟩, _, rfl, rfl, rfl⟩
      | choiceElse clauses otherwise =>
          exact ⟨_, _, clauses, _, _, .inl ⟨_, _, rfl, otherwise, rfl⟩, _, rfl, rfl, rfl⟩

/-- A loop is its variables, what it runs over, its body and the word that ends it. -/
theorem reads_loop {bound : Nat} (small : bound ≤ n) (enough : i.length ≤ bound) :
    Reads (loop nested inside bound) i fun t o =>
      Derives .statement (.keyword .kwForeach :: i) (some t) o := by
  refine .congr (.bind (reads_loopVariables enough) fun vars m h => .expect fun k input =>
    .bind (.require (reads_nested k ?_) _) fun iterable l h' => .bind (reads_inside l ?_) fun b _ _ =>
      .expect fun o _ => .build _) fun t o => ?_
  · have m_le := h.length_le
    subst input
    simp only [List.length_cons] at m_le
    omega
  · have m_le := h.length_le
    have l_le := h'.length_le
    subst input
    simp only [List.length_cons] at m_le
    omega
  · constructor
    · intro h
      obtain ⟨vars, _, names, k, rfl, iterable, l, inner, b, _, body, _, rfl, rfl, rfl⟩ := h
      exact .loop names inner body
    · intro h
      cases h with
      | expression other => simp [Starts, beginsStatement] at other
      | loop names inner body =>
          exact ⟨_, _, names, _, rfl, _, _, inner, _, _, body, _, rfl, rfl, rfl⟩

end

/-- Four words open a statement that is no expression. -/
theorem opening?_eq_some {t : Terminal} {found : Opening} (made : opening? t = some found) :
    (t = .keyword .kwIf ∧ found = .choice) ∨ (t = .keyword .kwForeach ∧ found = .loop) ∨
      (t = .keyword .kwBreak ∧ found = .jump .stop) ∨ (t = .keyword .kwContinue ∧ found = .jump .skip) := by
  unfold opening? at made
  split at made <;> cases made <;> simp

/-- A statement that is no expression is opened exactly where the grammar has one begin. -/
theorem isSome_opening? (t : Terminal) : (opening? t).isSome = beginsStatement t := by
  cases t with
  | keyword word => cases word <;> rfl
  | _ => rfl

/-- A statement that a word opens is there in any case. -/
theorem reads_opened {word : Keyword} {x : Parser Tree} {m : List Terminal}
    (begins : beginsStatement (.keyword word) = true)
    (hx : Reads x m fun t o => Derives .statement (.keyword word :: m) (some t) o) :
    Reads (do return some (← x)) m (Derives .statement (.keyword word :: m)) := by
  refine .congr (.bind hx fun t _ _ => .pure (some t)) fun found o => ?_
  constructor
  · intro h
    obtain ⟨t, _, h, rfl, rfl⟩ := h
    exact h
  · intro h
    cases found with
    | none =>
        cases h with
        | expression other => simp [Starts, begins] at other
    | some t => exact ⟨t, o, h, rfl, rfl⟩

/-- A statement of any bound that is no restriction is read as the grammar derives it. -/
theorem reads_statement (bound : Nat) (enough : i.length ≤ bound) :
    Reads (statement bound) i (Derives .statement i) := by
  induction bound generalizing i with
  | zero =>
      obtain rfl := List.length_eq_zero_iff.mp (Nat.le_zero.mp enough)
      apply Reads.congr (.pure _)
      intro found o
      constructor
      · intro h
        obtain ⟨rfl, rfl⟩ := h
        exact .expression rfl (.none_of_other rfl _)
      · intro h
        have taken := h.length_add_least
        cases found with
        | none => exact ⟨rfl, List.length_eq_zero_iff.mp (Nat.le_zero.mp h.length_le)⟩
        | some t => simp [Phrase.least] at taken
  | succ bound ih =>
      have reads_nested (i : List Terminal) (short : i.length ≤ bound) :
          Reads (expression bound) i (Derives expr i) :=
        reads_expression bound short
      have reads_inside (i : List Terminal) (short : i.length ≤ bound) :
          Reads (body (statement bound) bound) i (Derives .body i) :=
        reads_body (fun i short => ih short) (Nat.le_refl bound) short
      refine .take?_same (fun t found m made input => ?_) fun other => ?_
      · subst input
        have short : m.length ≤ bound := Nat.le_of_succ_le_succ enough
        rcases opening?_eq_some made with ⟨rfl, rfl⟩ | ⟨rfl, rfl⟩ | ⟨rfl, rfl⟩ | ⟨rfl, rfl⟩
        · exact reads_opened rfl (reads_choice reads_nested reads_inside (Nat.le_refl bound) short)
        · exact reads_opened rfl (reads_loop reads_nested reads_inside (Nat.le_refl bound) short)
        · refine reads_opened rfl (.congr (.build _) fun t o => ?_)
          constructor
          · intro h
            obtain ⟨rfl, rfl⟩ := h
            exact .stop
          · intro h
            cases h with
            | expression other => cases other
            | stop => exact ⟨rfl, rfl⟩
        · refine reads_opened rfl (.congr (.build _) fun t o => ?_)
          constructor
          · intro h
            obtain ⟨rfl, rfl⟩ := h
            exact .skip
          · intro h
            cases h with
            | expression other => cases other
            | skip => exact ⟨rfl, rfl⟩
      · simp only [isSome_opening?] at other
        apply Reads.congr (reads_expression (bound + 1) enough)
        intro found o
        constructor
        · exact .expression other
        · intro h
          cases h with
          | expression _ inner => exact inner
          | _ => simp [Starts, beginsStatement] at other

/-!
### Programs
-/

/-- All terminals are a program. -/
theorem reads_program :
    Reads (program i.length) i fun t o => Derives .body i t [] ∧ o = [] := by
  refine .congr (.bind (reads_body (fun i short => reads_statement _ short) (Nat.le_refl _)
    (Nat.le_refl _)) fun root m h => .peek (E := fun t o => m = [] ∧ t = root ∧ o = []) ?_) fun t o => ?_
  · cases m with
    | nil => exact .congr (.pure root) fun t o => by simp
    | cons next rest => exact .congr (.reject _) fun t o => by simp
  · constructor
    · intro h
      obtain ⟨root, _, h, rfl, rfl, rfl⟩ := h
      exact ⟨h, rfl⟩
    · intro h
      obtain ⟨h, rfl⟩ := h
      exact ⟨t, [], h, rfl, rfl, rfl⟩

/-- The reading of terminals succeeds exactly with the program that they are. -/
theorem readTerminals_eq_ok {input : List Terminal} {t : Tree} :
    (∃ s, readTerminals none input = .ok t s) ↔ IsProgram input t := by
  constructor
  · intro h
    obtain ⟨s, run⟩ := h
    obtain ⟨o, built, rfl, h, rfl⟩ := reads_program.sound 0 t s run
    exact h
  · intro h
    obtain ⟨built, run⟩ := reads_program.complete 0 t [] ⟨h, rfl⟩
    exact ⟨_, run⟩

/-- The tree that is read without a limit is the one that the grammar derives. -/
theorem readTree_eq_ok {source : String} {t : Tree} :
    readTree none source = .ok t ↔ IsProgram (terminals source) t := by
  rw [← readTerminals_eq_ok, readTree]
  cases readTerminals none (terminals source) with
  | ok t' s => simp
  | error e s => simp

end Grammar

/-- An invalid token leaves its mark among the terminals. -/
theorem invalid_mem_terminals {source : String} {token : Token} (drawn : token ∈ (lex source).toList)
    (invalid : token.kind = .invalid) : .invalid ∈ terminals source := by
  refine List.mem_filterMap.mpr ⟨token, drawn, ?_⟩
  simp [Token.terminal?, invalid]

/-- A source is read as a program exactly if all of it is tokens and the grammar derives it from them; the
    program is the tree of the derivation. -/
theorem parse_eq_ok_iff_derives (source : String) (ast : Ast) :
    parse source none = .ok ast ↔ (∀ token ∈ (lex source).toList, token.kind ≠ .invalid) ∧
      ∃ t, Grammar.IsProgram (terminals source) t ∧ ast = t.toAst none := by
  simp only [parse_eq_ok, Grammar.readTree_eq_ok]
  constructor
  · intro h
    obtain ⟨t, program, rfl⟩ := h
    refine ⟨fun token drawn invalid => ?_, t, program, rfl⟩
    have left := Grammar.Derives.invalid_mem program (invalid_mem_terminals drawn invalid)
    simp at left
  · intro h
    obtain ⟨_, program⟩ := h
    exact program

end BuildScript
