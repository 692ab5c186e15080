/-
Module: BuildScript.Proofs.Token.Spelt
Layer: proofs about tokens
Purpose: Pieces of text that are read as the tokens they are meant to be. Whether a piece is one depends on
  the byte behind it: a word must end at a boundary, a sign must not be extended, and a string must not
  be followed by another quote. Bytes are `Spelt` as terminals when they are made of such pieces and
  blanks; a source of such bytes has exactly these terminals.
Main exports: Piece.terminal?, Piece.isProper, Piece.parts, Spelt, terminals_eq_of_spelt
-/
import BuildScript.Proofs.Token.Decimal
import BuildScript.Proofs.Token.Lexed
import BuildScript.Tree.Piece

namespace BuildScript

/-!
### Tokens in front of a cursor
-/

/-- In front of `rest` the bytes `w` are one token, and the grammar sees it as `t`. -/
structure Takes (w rest : List UInt8) (t : Terminal) : Prop where
  nonempty : w ≠ []
  taken : ∀ (c : Cursor) (before : List UInt8), c.Between before (w ++ rest) → ∃ lexeme : Lexeme,
    c.scan = (lexeme, c.forward w.length) ∧ lexeme.kind.isTrivia = false ∧
    (c.buffer.token c.position lexeme).terminal? = some t ∧
    (c.buffer.token c.position lexeme).isLast = false ∧ c.buffer.fault? c.position lexeme = none

/-- A scan leaves the cursor behind what it recognises. -/
theorem Cursor.scan_eq {c : Cursor} {kind : Lexeme.Kind} {n : Nat}
    (recognized : c.recognize = (kind, c.forward n)) : c.scan = (⟨kind, n⟩, c.forward n) := by
  simp [Cursor.scan, recognized, Cursor.forward]

namespace Takes

variable {w rest : List UInt8}

/-- A token is found where its lexeme is recognised. -/
theorem of_recognize {t : Terminal} (nonempty : w ≠ []) (kind : Lexeme.Kind)
    (trivia : kind.isTrivia = false)
    (flawless : ∀ buffer start stop, Buffer.defect? buffer start stop kind = none)
    (recognized : ∀ (c : Cursor) (before : List UInt8), c.Between before (w ++ rest) →
      c.recognize = (kind, c.forward w.length))
    (meaning : ∀ (c : Cursor) (before : List UInt8), c.Between before (w ++ rest) →
      ∃ k text, c.buffer.meaning c.position (c.position + w.length) kind = (k, text) ∧
        (∀ span, Token.terminal? { kind := k, text, span } = some t) ∧ k ≠ .finish ∧ k ≠ .invalid) :
    Takes w rest t where
  nonempty := nonempty
  taken c before h := by
    obtain ⟨k, text, means, terminal, notFinish, notInvalid⟩ := meaning c before h
    refine ⟨⟨kind, w.length⟩, Cursor.scan_eq (recognized c before h), trivia, ?_, ?_, ?_⟩
    · simp only [Buffer.token, means, terminal]
    · simp [Buffer.token, means, Token.isLast, notFinish, notInvalid]
    · simp [Buffer.fault?, flawless]

/-- A word has a first byte that begins words, and word bytes behind it. -/
theorem exists_cons_of_isWord {s : String} (word : Text.isWord s = true) :
    ∃ b bs, Text.bytes s = b :: bs ∧ Byte.isWordStart b = true ∧ ∀ x ∈ bs, Byte.isWordByte x = true := by
  unfold Text.isWord at word
  split at word
  · cases word
  · rename_i b bs bytes
    simp only [Bool.and_eq_true, List.all_eq_true] at word
    exact ⟨b, bs, bytes, word⟩

/-- The kind of a word in front of a boundary. -/
theorem word {s : String} (word : Text.isWord s = true) (boundary : Byte.isBoundary rest.head? = true)
    {t : Terminal} {k : Token.Kind}
    (kind : (match Keyword.ofText? s with
      | some keyword => Token.Kind.keyword keyword
      | none => .name) = k)
    (terminal : ∀ span, Token.terminal? { kind := k, text := s, span } = some t) :
    Takes (Text.bytes s) rest t := by
  obtain ⟨b, bs, bytes, start, more⟩ := exists_cons_of_isWord word
  have stop : ∀ b, rest.head? = some b → Byte.isWordByte b = false := fun b hb => by
    rw [hb] at boundary
    exact (Byte.isBoundary_spec b boundary).1
  refine of_recognize (by simp [bytes]) .word rfl (fun _ _ _ => rfl) (fun c before h => ?_)
    fun c before h => ?_
  · rw [bytes] at h ⊢
    exact h.recognize_word start more stop
  · have next : c.buffer.byteAt? (c.position + (Text.bytes s).length) = rest.head? := h.forward.byteAt?
    refine ⟨k, s, ?_, terminal, ?_, ?_⟩
    · simp only [Buffer.meaning, Buffer.wordKind, h.text, next, boundary, if_true]
      subst kind
      rfl
    · rw [← kind]
      cases Keyword.ofText? s <;> simp
    · rw [← kind]
      cases Keyword.ofText? s <;> simp

/-- A word that is not reserved is read as a name in front of a boundary. -/
theorem name {s : String} (proper : Text.isWord s = true) (free : isReserved s = false)
    (boundary : Byte.isBoundary rest.head? = true) : Takes (Text.bytes s) rest (.name s) := by
  refine word proper boundary (k := .name) ?_ fun _ => rfl
  rw [isReserved, Option.isSome_eq_false_iff, Option.isNone_iff_eq_none] at free
  rw [free]

/-- A reserved word is read as its keyword in front of a boundary. -/
theorem keyword (k : Keyword) (boundary : Byte.isBoundary rest.head? = true) :
    Takes (Text.bytes k.text) rest (.keyword k) := by
  have proper : Text.isWord k.text = true := by cases k <;> decide
  exact word proper boundary (k := .keyword k) (by rw [k.ofText?_text]) fun _ => rfl

/-- A number is read as its value in front of a boundary. -/
theorem number {value : Int64} (positive : ¬ value < 0) (boundary : Byte.isBoundary rest.head? = true) :
    Takes (Text.bytes (Text.decimal value)) rest (.number (some value)) := by
  have digits := Text.repr_digits value.toInt.natAbs
  have text : Text.decimal value = value.toInt.natAbs.repr := by rw [Text.decimal, if_neg positive]
  refine of_recognize (by rw [text]; exact digits.1) (.number .decimal) rfl (fun _ _ _ => rfl)
    (fun c before h => ?_) fun c before h => ?_
  · rw [text] at h ⊢
    cases bytes : Text.bytes value.toInt.natAbs.repr with
    | nil => exact absurd bytes digits.1
    | cons b bs =>
        rw [bytes] at h digits
        exact h.recognize_number ⟨b :: bs, rfl, digits.1, digits.2⟩ boundary
  · refine ⟨.number .decimal, Text.decimal value, ?_, fun _ => ?_, by simp, by simp⟩
    · simp only [Buffer.meaning, h.text]
    · simp only [Token.terminal?, Numeral.value?_decimal positive]

/-- A string is read as its content unless one more quote follows. -/
theorem string {q : Quoting} {content : String} (fits : q.fits content = true)
    (stop : rest.head? ≠ some Byte.quote) :
    Takes (Text.bytes (q.wrap content)) rest (.string content) := by
  obtain ⟨unclosed, last⟩ := Quoting.fits_iff.mp fits
  rw [Quoting.bytes_wrap]
  refine of_recognize ?_ (.string q) rfl (fun _ _ _ => rfl)
    (fun c before h => h.recognize_string unclosed last fun _ _ => stop) fun c before h => ?_
  · cases q <;> simp [Quoting.markBytes]
  · refine ⟨.string q, content, ?_, fun _ => rfl, by simp, by simp⟩
    have inside : (c.forward q.markBytes.length).Between (before ++ q.markBytes)
        (Text.bytes content ++ (q.markBytes ++ rest)) :=
      Cursor.Between.forward (by simpa using h)
    have text := inside.text
    have stop : c.position + (q.markBytes ++ Text.bytes content ++ q.markBytes).length -
        q.markBytes.length = c.position + q.markBytes.length + (Text.bytes content).length := by
      simp
      omega
    simp only [Buffer.meaning, stop]
    exact congrArg (Prod.mk _) text

/-- A sign is read as itself unless an equals sign follows. -/
theorem sign (p : Punct) (stop : rest.head? ≠ some Byte.equals) :
    Takes (Text.bytes p.text) rest (.punct p) := by
  refine of_recognize ?_ (.punct p) rfl (fun _ _ _ => rfl) (fun c before h => h.recognize_sign fun _ => stop)
    fun c before h => ⟨.punct p, p.text, rfl, fun _ => rfl, by simp, by simp⟩
  cases p <;> decide

end Takes

/-!
### Pieces
-/

namespace Piece

/-- What the grammar sees of a piece. -/
def terminal? : Piece → Option Terminal
  | .keyword word => some (.keyword word)
  | .sign p => some (.punct p)
  | .opening => some (.punct .leftParen)
  | .closing => some (.punct .rightParen)
  | .name text => some (.name text)
  | .number value => some (.number (some value))
  | .string _ content => some (.string content)
  | .space => none

/-- Whether the piece can be read as what it is meant to be. -/
def isProper : Piece → Bool
  | .name text => Text.isWord text && !isReserved text
  | .number value => !decide (value < 0)
  | .string quoting content => quoting.fits content
  | .keyword _ | .sign _ | .opening | .closing | .space => true

/-- Whether the piece ends in front of a byte, `none` being the end of the text. -/
def parts : Piece → Option UInt8 → Bool
  | .keyword _, next | .name _, next | .number _, next => Byte.isBoundary next
  | .sign _, next | .opening, next | .closing, next => next != some Byte.equals
  | .string _ _, next => next != some Byte.quote
  | .space, _ => true

/-- A proper piece is read as its terminal in front of whatever parts it from the next. -/
theorem takes {p : Piece} {t : Terminal} {rest : List UInt8} (terminal : p.terminal? = some t)
    (proper : p.isProper = true) (seam : p.parts rest.head? = true) :
    Takes (Text.bytes p.text) rest t := by
  cases p <;> cases terminal <;> simp only [isProper, parts, Bool.and_eq_true, Bool.not_eq_true',
    decide_eq_false_iff_not, bne_iff_ne, ne_eq] at proper seam
  case keyword => exact .keyword _ seam
  case sign => exact .sign _ seam
  case opening => exact .sign _ seam
  case closing => exact .sign _ seam
  case name => exact .name proper.1 proper.2 seam
  case number => exact .number proper seam
  case string => exact .string proper seam

end Piece

/-!
### Whole sources
-/

/-- Bytes made of pieces and blanks, and the terminals that they are. -/
inductive Spelt : List UInt8 → List Terminal → Prop where
  | nil : Spelt [] []
  | blank {b bytes ts} (blank : Byte.isBlank b = true) (rest : Spelt bytes ts) : Spelt (b :: bytes) ts
  | token {w bytes t ts} (takes : Takes w bytes t) (rest : Spelt bytes ts) : Spelt (w ++ bytes) (t :: ts)

/-- Bytes that are one token have the shape of a lexeme. -/
theorem Takes.exists_shape {c : Cursor} {before w rest : List UInt8} {t : Terminal} (takes : Takes w rest t)
    (h : c.Between before (w ++ rest)) : ∃ kind : Lexeme.Kind, Lexeme.Shape kind w rest.head? ∧
      kind.isToken = true ∧ (kind.token before.length w rest.head?).terminal? = some t := by
  obtain ⟨lexeme, scanned, trivia, terminal, notLast, -⟩ := takes.taken c before h
  obtain ⟨kind, w', more, same, shape⟩ := Lexeme.exists_shape (w ++ rest)
  have scanned' := shape.scan (same ▸ h)
  rw [scanned, Prod.mk.injEq] at scanned'
  obtain ⟨rfl, ends⟩ := scanned'
  have length : w.length = w'.length := Nat.add_left_cancel (congrArg Cursor.position ends)
  obtain ⟨rfl, rfl⟩ := List.append_inj same length
  rw [h.token_eq shape] at terminal notLast
  refine ⟨kind, shape, ?_, terminal⟩
  cases kind with
  | space | comment => cases trivia
  | invalidChar | unterminated | malformedNumber | loneBang | finish => cases notLast
  | word | number | string | punct => rfl

/-- Bytes that are spelt as terminals are lexed as tokens that the grammar sees as these. -/
theorem Spelt.exists_lexed {c : Cursor} {before bytes : List UInt8} {ts : List Terminal}
    (spelt : Spelt bytes ts) (h : c.Between before bytes) :
    ∃ tokens, Lexed before.length bytes tokens ∧ tokens.filterMap Token.terminal? = ts := by
  induction spelt generalizing c before with
  | nil => exact ⟨_, .finish, rfl⟩
  | @blank b bytes ts blank rest ih =>
      obtain ⟨tokens, lexed, terminals⟩ := ih h.step
      rw [List.length_append] at lexed
      exact ⟨tokens, .blank blank lexed, terminals⟩
  | @token w bytes t ts takes rest ih =>
      obtain ⟨kind, shape, token, terminal⟩ := takes.exists_shape h
      obtain ⟨tokens, lexed, terminals⟩ := ih h.forward
      rw [List.length_append] at lexed
      exact ⟨_, .token token shape lexed, by rw [List.filterMap_cons_some terminal, terminals]⟩

/-- A source whose bytes are spelt as terminals has these terminals. -/
theorem terminals_eq_of_spelt {source : String} {ts : List Terminal} (h : Spelt (Text.bytes source) ts) :
    terminals source = ts := by
  obtain ⟨tokens, lexed, rfl⟩ := h.exists_lexed (Cursor.between_cursorFrom_zero source)
  rw [terminals, lex_eq_of_lexed lexed]

end BuildScript
