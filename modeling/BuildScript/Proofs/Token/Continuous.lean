/-
Module: BuildScript.Proofs.Token.Continuous
Layer: proofs about tokens
Purpose: Drawing tokens one at a time, from where the last one ended, gives what one scan of the whole source
  gives: its lexemes without the trivia, each as a token at the place where it stands, up to the first
  fault.
Main exports: Cursor.Scans, Buffer.tokens, lex_eq_tokens
-/
import BuildScript.Proofs.Token.Lexed

namespace BuildScript

/-!
### One scan
-/

namespace Cursor

/-- Scanning on from the cursor to the end of the source gives the lexemes. -/
inductive Scans : Cursor → List Lexeme → Prop where
  | finish {c} (ends : c.scan.1.kind = .finish) : Scans c []
  | next {c lexemes} (other : c.scan.1.kind ≠ .finish) (others : Scans c.scan.2 lexemes) :
      Scans c (c.scan.1 :: lexemes)

/-- A source has one row of lexemes only. -/
theorem Scans.unique {c : Cursor} {lexemes others : List Lexeme} (scans : c.Scans lexemes)
    (scans' : c.Scans others) : lexemes = others := by
  induction scans generalizing others with
  | finish ends =>
      cases scans' with
      | finish => rfl
      | next other => exact absurd ends other
  | next other _ ih =>
      cases scans' with
      | finish ends => exact absurd ends other
      | next _ more => rw [ih more]

/-- At the end of the source nothing is left to scan. -/
theorem Between.scans_nil {c : Cursor} {before : List UInt8} (h : c.Between before []) : c.Scans [] :=
  .finish (by simp [Cursor.scan, h.recognize_end])

theorem Between.scans_cons {c : Cursor} {before w rest : List UInt8} {kind : Lexeme.Kind}
    {lexemes : List Lexeme} (h : c.Between before (w ++ rest)) (shape : Lexeme.Shape kind w rest.head?)
    (other : kind ≠ .finish) (others : (c.forward w.length).Scans lexemes) :
    c.Scans (⟨kind, w.length⟩ :: lexemes) := by
  have scanned := shape.scan h
  have next : c.Scans (c.scan.1 :: lexemes) := .next (by rwa [scanned]) (by rwa [scanned])
  rwa [scanned] at next

/-- The scan of a source comes to its end. -/
theorem Between.exists_scans {c : Cursor} {before bytes : List UInt8} (h : c.Between before bytes) :
    ∃ lexemes, c.Scans lexemes := by
  induction size : bytes.length using Nat.strongRecOn generalizing c before bytes with
  | ind n ih =>
      subst size
      obtain ⟨kind, w, rest, rfl, shape⟩ := Lexeme.exists_shape bytes
      by_cases ends : kind = .finish
      · subst ends
        obtain ⟨rfl, rfl⟩ := Lexeme.Shape.eq_nil_of_finish shape
        exact ⟨[], h.scans_nil⟩
      · have nonempty := List.length_pos_iff.mpr (shape.ne_nil ends)
        obtain ⟨lexemes, scans⟩ := ih rest.length (by simp; omega) h.forward rfl
        exact ⟨_, h.scans_cons shape ends scans⟩

/-- What a scan finds first is told by the bytes in front of the cursor. -/
theorem Scans.exists_shape {c : Cursor} {before bytes : List UInt8} {lexeme : Lexeme}
    {lexemes : List Lexeme} (scans : c.Scans (lexeme :: lexemes)) (h : c.Between before bytes) :
    ∃ kind w rest, bytes = w ++ rest ∧ Lexeme.Shape kind w rest.head? ∧ kind ≠ .finish ∧
      lexeme = ⟨kind, w.length⟩ ∧ (c.forward w.length).Scans lexemes := by
  obtain ⟨kind, w, rest, rfl, shape⟩ := Lexeme.exists_shape bytes
  have scanned := shape.scan h
  cases scans with
  | next other others =>
      rw [scanned] at other others
      exact ⟨kind, w, rest, rfl, shape, other, by rw [scanned], others⟩

theorem Scans.eq_nil {c : Cursor} {before bytes : List UInt8} (scans : c.Scans [])
    (h : c.Between before bytes) : bytes = [] := by
  obtain ⟨kind, w, rest, rfl, shape⟩ := Lexeme.exists_shape bytes
  cases scans with
  | finish ends =>
      rw [shape.scan h] at ends
      obtain rfl : kind = .finish := ends
      obtain ⟨rfl, rfl⟩ := Lexeme.Shape.eq_nil_of_finish shape
      rfl

end Cursor

/-!
### From the scan to the tokens
-/

/-- Lexemes with the places where they begin, one behind the other from `start` on. -/
def Lexeme.placed : (start : Nat) → List Lexeme → List (Nat × Lexeme)
  | _, [] => []
  | start, lexeme :: lexemes => (start, lexeme) :: placed (start + lexeme.length) lexemes

/-- The tokens up to and with the first fault. -/
def Token.throughFault : List Token → List Token
  | [] => []
  | t :: ts => if t.kind = .invalid then [t] else t :: throughFault ts

/-- Tokens with the end of a source of `length` bytes behind them, unless there is a fault. -/
def Token.closed (length : Nat) (ts : List Token) : List Token :=
  if ts.any fun t => t.kind = .invalid then ts
  else ts ++ [{ kind := .finish, text := "", span := { start := length, stop := length } }]

theorem Token.closed_cons {t : Token} (right : t.kind ≠ .invalid) (length : Nat) (ts : List Token) :
    Token.closed length (t :: ts) = t :: Token.closed length ts := by
  simp only [Token.closed, List.any_cons, right, decide_false, Bool.false_or]
  split <;> rfl

/-- The tokens of lexemes that stand one behind the other from `start` to the end of the source. -/
def Buffer.tokens (buffer : Buffer) (start : Nat) (lexemes : List Lexeme) : List Token :=
  let kept := (Lexeme.placed start lexemes).filter fun (_, lexeme) => !lexeme.kind.isTrivia
  Token.closed buffer.length (Token.throughFault (kept.map fun (start, lexeme) => buffer.token start lexeme))

theorem Buffer.tokens_trivia {buffer : Buffer} {start : Nat} {lexeme : Lexeme} {lexemes : List Lexeme}
    (trivia : lexeme.kind.isTrivia = true) :
    buffer.tokens start (lexeme :: lexemes) = buffer.tokens (start + lexeme.length) lexemes := by
  simp [tokens, Lexeme.placed, trivia]

namespace Cursor.Between

variable {c : Cursor} {before w rest : List UInt8} {kind : Lexeme.Kind} {lexemes : List Lexeme}

/-- The first fault ends the tokens. -/
theorem tokens_fault (h : c.Between before (w ++ rest)) (fault : kind.isFault = true)
    (shape : Lexeme.Shape kind w rest.head?) :
    c.buffer.tokens before.length (⟨kind, w.length⟩ :: lexemes) =
      [kind.token before.length w rest.head?] := by
  have token := h.token_eq shape
  have faulty : (kind.token before.length w rest.head?).kind = .invalid :=
    Lexeme.Kind.tokenKind_of_isFault fault
  rw [h.position] at token
  simp [Buffer.tokens, Lexeme.placed, Lexeme.Kind.isTrivia_of_isFault fault, token, Token.throughFault,
    faulty, Token.closed]

/-- A lexeme that is a token is followed by the tokens of what is behind it. -/
theorem tokens_token (h : c.Between before (w ++ rest)) (right : kind.isToken = true)
    (shape : Lexeme.Shape kind w rest.head?) :
    c.buffer.tokens before.length (⟨kind, w.length⟩ :: lexemes) =
      kind.token before.length w rest.head? :: c.buffer.tokens (before.length + w.length) lexemes := by
  have token := h.token_eq shape
  have faultless : (kind.token before.length w rest.head?).kind ≠ .invalid :=
    (Lexeme.Kind.tokenKind_of_isToken right).2
  rw [h.position] at token
  simp [Buffer.tokens, Lexeme.placed, Lexeme.Kind.isTrivia_of_isToken right, token, Token.throughFault,
    faultless, Token.closed_cons]

end Cursor.Between

/-- Blanks are passed one by one. -/
theorem Lexed.blanks {start : Nat} {w bytes : List UInt8} {ts : List Token}
    (all : ∀ b ∈ w, Byte.isBlank b = true) (lexed : Lexed (start + w.length) bytes ts) :
    Lexed start (w ++ bytes) ts := by
  induction w generalizing start with
  | nil => exact lexed
  | cons b w ih =>
      obtain ⟨blank, all⟩ := List.forall_mem_cons.mp all
      apply Lexed.blank blank
      apply ih all
      rwa [Nat.add_assoc, Nat.add_comm 1]

/-- The tokens of a scan are what the bytes in front of the cursor are lexed as. -/
theorem Cursor.Scans.lexed {c : Cursor} {before bytes : List UInt8} {lexemes : List Lexeme}
    (scans : c.Scans lexemes) (h : c.Between before bytes) :
    Lexed before.length bytes (c.buffer.tokens before.length lexemes) := by
  induction lexemes generalizing c before bytes with
  | nil =>
      obtain rfl := scans.eq_nil h
      have length := h.holds.length
      rw [List.append_nil] at length
      rw [Buffer.tokens, length]
      exact .finish
  | cons lexeme lexemes ih =>
      obtain ⟨kind, w, rest, rfl, shape, other, rfl, others⟩ := scans.exists_shape h
      have behind := ih others h.forward
      rw [List.length_append] at behind
      rcases shape.cases_of_ne_finish other with ⟨rfl, blank⟩ | ⟨rfl, w, rfl, line, stop⟩ | fault | right
      · rw [Buffer.tokens_trivia rfl]
        exact .blanks blank behind
      · rw [Buffer.tokens_trivia rfl]
        exact .comment line stop behind
      · rw [h.tokens_fault fault shape]
        exact .fault fault shape
      · rw [h.tokens_token right shape]
        exact .token right shape behind

/-- Every source is lexed. -/
theorem lexed_lex (source : String) : Lexed 0 (Text.bytes source) (lex source).toList := by
  have front := Cursor.between_ofSource source
  obtain ⟨lexemes, scans⟩ := front.exists_scans
  have lexed := scans.lexed front
  rwa [← lex_eq_of_lexed lexed] at lexed

/-- The tokens drawn from a source one at a time are those of one scan from its first byte to its end. -/
theorem lex_eq_tokens (source : String) : ∃ lexemes,
    (∀ others, (Buffer.ofSource source).cursor.Scans others ↔ others = lexemes) ∧
      (lex source).toList = (Buffer.ofSource source).tokens 0 lexemes := by
  have front := Cursor.between_ofSource source
  obtain ⟨lexemes, scans⟩ := front.exists_scans
  exact ⟨lexemes, fun others => ⟨fun scans' => scans'.unique scans, fun same => same ▸ scans⟩,
    lex_eq_of_lexed (scans.lexed front)⟩

end BuildScript
