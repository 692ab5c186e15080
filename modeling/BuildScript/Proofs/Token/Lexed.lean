/-
Module: BuildScript.Proofs.Token.Lexed
Layer: proofs about tokens
Purpose: What bytes are lexed as, told without a buffer and without a lexer. Blanks and comments in front of a
  token are passed one by one, so a derivation can be put together from any pieces of trivia. Every
  derivation from the bytes of a source gives the tokens that are drawn from it.
Main exports: Lexeme.Kind.token, Lexed, Lexer.Between, lex_eq_of_lexed
-/
import BuildScript.Proofs.Lexeme.Recognize
import BuildScript.Proofs.Source.Character
import BuildScript.Token.Lexer

namespace BuildScript

/-- A reserved word is found by its text. -/
theorem Keyword.ofText?_text (word : Keyword) : ofText? word.text = some word := by
  cases word <;> decide

namespace Lexeme.Kind

/-!
### Tokens of shapes
-/

/-- The part of a lexeme that its token has for a text. -/
def content : Kind → (w : List UInt8) → List UInt8
  | .number radix, w => w.drop (Text.bytes radix.mark).length
  | .string q, w => (w.drop q.markBytes.length).take (w.length - 2 * q.markBytes.length)
  | .word, w | .punct _, w | .space, w | .comment, w | .invalidChar, w | .unterminated _, w
  | .malformedNumber, w | .loneBang, w | .finish, w => w

/-- Kind of the token that a lexeme in front of `next` is. -/
def tokenKind : Kind → (w : List UInt8) → (next : Option UInt8) → Token.Kind
  | .word, w, next =>
      match Keyword.ofText? (Text.ofBytes w) with
      | some keyword => if Byte.isBoundary next then .keyword keyword else .name
      | none => .name
  | .number radix, _, _ => .number radix
  | .string q, _, _ => .string q
  | .punct p, _, _ => .punct p
  | .finish, _, _ => .finish
  | .space, _, _ | .comment, _, _ | .invalidChar, _, _ | .unterminated _, _, _ | .malformedNumber, _, _
  | .loneBang, _, _ => .invalid

/-- The token that a lexeme with the bytes `w` at `start`, in front of `next`, is. -/
def token (kind : Kind) (start : Nat) (w : List UInt8) (next : Option UInt8) : Token where
  kind := kind.tokenKind w next
  text := Text.ofBytes (kind.content w)
  span := { start, stop := start + w.length }

theorem content_number (radix : Radix) (digits : List UInt8) :
    content (.number radix) (Text.bytes radix.mark ++ digits) = digits :=
  List.drop_left

theorem content_string (q : Quoting) (w : List UInt8) :
    content (.string q) (q.markBytes ++ w ++ q.markBytes) = w := by
  have length : (q.markBytes ++ w ++ q.markBytes).length - 2 * q.markBytes.length = w.length := by
    simp only [List.length_append]
    omega
  rw [content, length, List.append_assoc, List.drop_left, List.take_left]

variable {kind : Kind} {start : Nat} {w : List UInt8} {next : Option UInt8}

/-- No kind is both trivia and a token. -/
theorem isTrivia_of_isToken (token : kind.isToken = true) : kind.isTrivia = false := by
  cases kind <;> first | rfl | cases token

theorem isTrivia_of_isFault (fault : kind.isFault = true) : kind.isTrivia = false := by
  cases kind <;> first | rfl | cases fault

theorem tokenKind_of_isFault (fault : kind.isFault = true) : kind.tokenKind w next = .invalid := by
  cases kind <;> first | rfl | cases fault

theorem isLast_token_of_isFault (fault : kind.isFault = true) :
    (kind.token start w next).isLast = true := by
  simp [Token.isLast, token, tokenKind_of_isFault fault]

/-- A word is a name or a keyword. -/
theorem tokenKind_word (w : List UInt8) (next : Option UInt8) :
    tokenKind .word w next = .name ∨ ∃ keyword, tokenKind .word w next = .keyword keyword := by
  rw [tokenKind]
  split
  · split <;> simp
  · simp

/-- A word that is a keyword is spelt as it. -/
theorem text_of_tokenKind_word {keyword : Keyword} (reserved : tokenKind .word w next = .keyword keyword) :
    keyword.text = Text.ofBytes w := by
  cases found : Keyword.ofText? (Text.ofBytes w) with
  | none => simp [tokenKind, found] at reserved
  | some k =>
      have spelt : k.text = Text.ofBytes w := by simpa using List.find?_some found
      cases ends : Byte.isBoundary next with
      | false => simp [tokenKind, found, ends] at reserved
      | true =>
          obtain rfl : k = keyword := by simpa [tokenKind, found, ends] using reserved
          exact spelt

/-- A token is neither the end nor a fault. -/
theorem tokenKind_of_isToken (token : kind.isToken = true) :
    kind.tokenKind w next ≠ .finish ∧ kind.tokenKind w next ≠ .invalid := by
  cases kind with
  | word =>
      rcases tokenKind_word w next with name | ⟨keyword, reserved⟩
      · simp [name]
      · simp [reserved]
  | number | string | punct => simp [tokenKind]
  | _ => cases token

/-- Tokens that are right are not the last. -/
theorem isLast_token_of_isToken (right : kind.isToken = true) :
    (kind.token start w next).isLast = false := by
  have other : kind.tokenKind w next ≠ .finish ∧ kind.tokenKind w next ≠ .invalid :=
    tokenKind_of_isToken right
  simp [Token.isLast, token, other.1, other.2]

/-- No token is a defect. -/
theorem defect?_of_isToken (token : kind.isToken = true) (buffer : Buffer) (start stop : Nat) :
    buffer.defect? start stop kind = none := by
  cases kind <;> first | rfl | cases token

end Lexeme.Kind

namespace Cursor.Between

variable {c : Cursor} {before w rest : List UInt8} {kind : Lexeme.Kind}

/-- A part of the bytes in front of the cursor, as text. -/
theorem text_slice (h : c.Between before (w ++ rest)) (i : Nat) {j : Nat} (inside : j ≤ w.length) :
    c.buffer.text (c.position + i) (c.position + j) = Text.ofBytes ((w.drop i).take (j - i)) := by
  have part : (c.buffer.bytes.extract (c.position + i) (c.position + j)).toList =
      (w.drop i).take (j - i) := by
    rw [h.holds.extract _ _ (by simp [h.position]; omega), h.position, List.drop_length_add_append,
      Nat.add_sub_add_left]
    by_cases empty : j ≤ i
    · rw [Nat.sub_eq_zero_of_le empty, List.take_zero, List.take_zero]
    · rw [List.drop_append_of_le_length (by omega), List.take_append_of_le_length (by simp; omega)]
  rw [Buffer.text, Text.ofBytes, ← part]

/-- What a buffer makes of a lexeme is told by the bytes of the lexeme. -/
theorem meaning_eq (h : c.Between before (w ++ rest)) (shape : Lexeme.Shape kind w rest.head?) :
    c.buffer.meaning c.position (c.position + w.length) kind =
      (kind.tokenKind w rest.head?, Text.ofBytes (kind.content w)) := by
  have whole : c.buffer.text c.position (c.position + w.length) = Text.ofBytes w := by
    simpa using h.text_slice 0 (Nat.le_refl w.length)
  have behind : c.buffer.byteAt? (c.position + w.length) = rest.head? := h.forward.byteAt?
  generalize rest.head? = next at shape behind
  cases shape with
  | word => simp only [Buffer.meaning, Buffer.wordKind, whole, behind]; rfl
  | @number radix =>
      cases radix with
      | decimal => simp only [Buffer.meaning, whole]; rfl
      | binary | octal | hexadecimal =>
          have digits := h.text_slice 2 (Nat.le_refl w.length)
          rw [List.take_of_length_le (by simp)] at digits
          simp only [Buffer.meaning, digits]
          rfl
  | @string q w =>
      have inner := h.text_slice q.markBytes.length (j := (q.markBytes ++ w).length) (by simp)
      have stop : c.position + (q.markBytes ++ w ++ q.markBytes).length - q.markBytes.length =
          c.position + (q.markBytes.length + w.length) := by
        simp only [List.length_append]
        omega
      rw [List.length_append, Nat.add_sub_cancel_left, List.append_assoc, List.drop_left,
        List.take_left] at inner
      rw [Lexeme.Kind.content_string]
      simp only [Buffer.meaning, stop, inner]
      rfl
  | @punct p => rw [Lexeme.Kind.content, Text.ofBytes_bytes]; rfl
  | finish => rfl
  | _ => rw [Buffer.meaning, whole]; rfl

/-- The token of the lexeme in front of the cursor. -/
theorem token_eq (h : c.Between before (w ++ rest)) (shape : Lexeme.Shape kind w rest.head?) :
    c.buffer.token c.position ⟨kind, w.length⟩ = kind.token before.length w rest.head? := by
  have means := h.meaning_eq shape
  rw [h.position] at means ⊢
  simp only [Buffer.token, means]
  rfl

end Cursor.Between

/-!
### Derivations
-/

/-- Lexing gives the tokens `ts` for `bytes` that stand at `start` at the end of a source. -/
inductive Lexed : (start : Nat) → (bytes : List UInt8) → (ts : List Token) → Prop where
  | finish {start} : Lexed start [] [Lexeme.Kind.finish.token start [] none]
  | blank {start b bytes ts} (blank : Byte.isBlank b = true) (others : Lexed (start + 1) bytes ts) :
      Lexed start (b :: bytes) ts
  | comment {start w bytes ts} (line : Byte.newline ∉ w) (stop : ∀ b ∈ bytes.head?, b = Byte.newline)
      (others : Lexed (start + (Byte.hash :: w).length) bytes ts) :
      Lexed start (Byte.hash :: w ++ bytes) ts
  | fault {start kind w bytes} (fault : kind.isFault = true)
      (shape : Lexeme.Shape kind w bytes.head?) :
      Lexed start (w ++ bytes) [kind.token start w bytes.head?]
  | token {start kind w bytes ts} (token : kind.isToken = true)
      (shape : Lexeme.Shape kind w bytes.head?) (others : Lexed (start + w.length) bytes ts) :
      Lexed start (w ++ bytes) (kind.token start w bytes.head? :: ts)

/-- Lexing goes on up to the end of the source or a fault. -/
theorem Lexed.exists_isLast {start : Nat} {bytes : List UInt8} {ts : List Token}
    (lexed : Lexed start bytes ts) : ∃ t ∈ ts, t.isLast = true := by
  induction lexed with
  | finish => exact ⟨_, List.mem_singleton_self _, rfl⟩
  | blank _ _ ih | comment _ _ _ ih => exact ih
  | fault fault _ => exact ⟨_, List.mem_singleton_self _, Lexeme.Kind.isLast_token_of_isFault fault⟩
  | token _ _ _ ih =>
      obtain ⟨t, member, last⟩ := ih
      exact ⟨t, List.mem_cons_of_mem _ member, last⟩

/-!
### Passing trivia
-/

namespace Cursor

variable {c : Cursor} {before w rest : List UInt8} {kind : Lexeme.Kind}

/-- In front of anything else no trivia is skipped. -/
theorem skipTrivia_of_other (other : c.scan.1.kind.isTrivia = false) (steps : Nat) :
    c.skipTrivia steps = c := by
  cases steps with
  | zero => rfl
  | succ steps => simp [skipTrivia, other]

/-- Each lexeme of trivia takes one step to skip. -/
theorem Between.skipTrivia_of_trivia (h : c.Between before (w ++ rest))
    (shape : Lexeme.Shape kind w rest.head?) (trivia : kind.isTrivia = true) (steps : Nat) :
    c.skipTrivia (steps + 1) = (c.forward w.length).skipTrivia steps := by
  simp only [skipTrivia, shape.scan h, trivia, if_true]

/-- One step more does not matter once there are as many as bytes are left. -/
theorem Between.skipTrivia_succ {steps : Nat} (h : c.Between before rest) (enough : rest.length ≤ steps) :
    c.skipTrivia (steps + 1) = c.skipTrivia steps := by
  induction steps generalizing c before rest with
  | zero =>
      obtain rfl := List.length_eq_zero_iff.mp (Nat.le_zero.mp enough)
      have ends : c.scan.1.kind.isTrivia = false := by
        simp [Cursor.scan, h.recognize_end, Lexeme.Kind.isTrivia]
      rw [skipTrivia_of_other ends, skipTrivia_of_other ends]
  | succ steps ih =>
      obtain ⟨kind, w, more, rfl, shape⟩ := Lexeme.exists_shape rest
      cases trivia : kind.isTrivia with
      | false =>
          have other : c.scan.1.kind.isTrivia = false := by rw [shape.scan h, trivia]
          rw [skipTrivia_of_other other, skipTrivia_of_other other]
      | true =>
          have nonempty := List.length_pos_iff.mpr (shape.ne_nil (by rintro rfl; cases trivia))
          rw [List.length_append] at enough
          rw [h.skipTrivia_of_trivia shape trivia, h.skipTrivia_of_trivia shape trivia]
          exact ih h.forward (by omega)

/-- A blank is passed by itself as it is passed with the blanks behind it. -/
theorem Between.skipTrivia_blank {b : UInt8} {steps : Nat} (h : c.Between before (b :: rest))
    (blank : Byte.isBlank b = true) (enough : rest.length < steps) :
    c.step.skipTrivia steps = c.skipTrivia steps := by
  obtain ⟨steps, rfl⟩ := Nat.exists_eq_add_one.mpr (Nat.zero_lt_of_lt enough)
  obtain ⟨w, more, rfl, inside, stop⟩ := Lexeme.exists_run Byte.isBlank rest
  have all : Lexeme.Shape .space (b :: w) more.head? :=
    .space (by simp) (List.forall_mem_cons.mpr ⟨blank, inside⟩) stop
  have here : c.Between before (b :: w ++ more) := h
  rw [here.skipTrivia_of_trivia all rfl]
  cases w with
  | nil => exact h.step.skipTrivia_succ (Nat.le_of_lt_succ enough)
  | cons x w =>
      have others : Lexeme.Shape .space (x :: w) more.head? := .space (by simp) inside stop
      rw [Between.skipTrivia_of_trivia h.step others rfl, Cursor.step, Cursor.forward, Cursor.forward]
      simp [Nat.add_comm, Nat.add_left_comm]

/-- A comment is passed by itself. -/
theorem Between.skipTrivia_comment {steps : Nat} (h : c.Between before (Byte.hash :: w ++ rest))
    (line : Byte.newline ∉ w) (stop : ∀ b ∈ rest.head?, b = Byte.newline) (enough : rest.length < steps) :
    (c.forward (Byte.hash :: w).length).skipTrivia steps = c.skipTrivia steps := by
  obtain ⟨steps, rfl⟩ := Nat.exists_eq_add_one.mpr (Nat.zero_lt_of_lt enough)
  rw [h.skipTrivia_of_trivia (.comment line stop) rfl]
  exact h.forward.skipTrivia_succ (Nat.le_of_lt_succ enough)

/-- A cursor inside the source is found again from its position. -/
theorem Between.cursorFrom_eq (h : c.Between before rest) : c.buffer.cursorFrom c.position = c := by
  rw [Buffer.cursorFrom, h.holds.length, List.length_append, h.position,
    Nat.min_eq_left (Nat.le_add_right _ _), ← h.position]

end Cursor

/-!
### Drawing
-/

namespace Lexer

variable {lexer : Lexer} {before w bytes : List UInt8} {kind : Lexeme.Kind}

/-- The lexer stands in its source between `before` and `bytes`, and has met no fault. -/
structure Between (lexer : Lexer) (before bytes : List UInt8) : Prop where
  cursor : (lexer.buffer.cursorFrom lexer.position).Between before bytes
  flawless : lexer.fault? = none

/-- Where the next token begins. -/
def start (lexer : Lexer) : Cursor :=
  (lexer.buffer.cursorFrom lexer.position).skipTrivia lexer.buffer.bytes.size

theorem draw_of_flawless (flawless : lexer.fault? = none) : lexer.draw =
    (lexer.buffer.token lexer.start.position lexer.start.scan.1,
      { lexer with
        position := lexer.start.scan.2.position
        fault? := lexer.buffer.fault? lexer.start.position lexer.start.scan.1 }) := by
  rw [draw, flawless]
  rfl

theorem Between.room (h : lexer.Between before bytes) : bytes.length < lexer.buffer.bytes.size := by
  have room := h.cursor.holds.room
  simp only [Buffer.margin, Buffer.cursorFrom, List.length_append] at room
  omega

/-- The lexer at another place in its source. -/
def moved (lexer : Lexer) (position : Nat) : Lexer :=
  { lexer with position }

theorem Between.cursorFrom_behind (h : lexer.Between before (w ++ bytes)) :
    lexer.buffer.cursorFrom (before ++ w).length =
      (lexer.buffer.cursorFrom lexer.position).forward w.length := by
  have behind := h.cursor.forward
  rw [← behind.position]
  exact behind.cursorFrom_eq

theorem Between.moved (h : lexer.Between before (w ++ bytes)) :
    (lexer.moved (before ++ w).length).Between (before ++ w) bytes where
  cursor := by
    rw [Lexer.moved, h.cursorFrom_behind]
    exact h.cursor.forward
  flawless := h.flawless

/-- A lexer draws the same behind what it passes on its way to the next token. -/
theorem Between.draw_moved (h : lexer.Between before (w ++ bytes))
    (passed : ((lexer.buffer.cursorFrom lexer.position).forward w.length).skipTrivia
        lexer.buffer.bytes.size = lexer.start) :
    (lexer.moved (before ++ w).length).draw = lexer.draw := by
  have same : (lexer.moved (before ++ w).length).start = lexer.start := by
    rw [← passed, ← h.cursorFrom_behind]
    rfl
  rw [draw_of_flawless h.flawless, draw_of_flawless h.moved.flawless, same]
  rfl

theorem Between.draw_blank {b : UInt8} (h : lexer.Between before ([b] ++ bytes))
    (blank : Byte.isBlank b = true) : (lexer.moved (before ++ [b]).length).draw = lexer.draw :=
  h.draw_moved (h.cursor.skipTrivia_blank blank (Nat.lt_of_succ_lt h.room))

/-- A comment in front of a token makes no difference to the draw. -/
theorem Between.draw_comment (h : lexer.Between before (Byte.hash :: w ++ bytes))
    (line : Byte.newline ∉ w) (stop : ∀ b ∈ bytes.head?, b = Byte.newline) :
    (lexer.moved (before ++ Byte.hash :: w).length).draw = lexer.draw := by
  have room := h.room
  rw [List.length_append] at room
  exact h.draw_moved (h.cursor.skipTrivia_comment line stop (Nat.lt_of_le_of_lt (Nat.le_add_left _ _) room))

/-- Where a lexeme that is no trivia begins, its token is drawn. -/
theorem Between.draw_shape (h : lexer.Between before (w ++ bytes))
    (shape : Lexeme.Shape kind w bytes.head?) (other : kind.isTrivia = false) :
    lexer.draw = (kind.token before.length w bytes.head?,
      { lexer with
        position := (before ++ w).length
        fault? := lexer.buffer.fault? before.length ⟨kind, w.length⟩ }) := by
  have scanned := shape.scan h.cursor
  have begins : lexer.start = lexer.buffer.cursorFrom lexer.position :=
    Cursor.skipTrivia_of_other (by rw [scanned, other]) _
  have token := h.cursor.token_eq shape
  rw [draw_of_flawless h.flawless, begins, scanned, h.cursor.forward.position, ← token, h.cursor.position]
  rfl

/-- Behind a token the lexer goes on where the lexeme ends. -/
theorem Between.draw_token (h : lexer.Between before (w ++ bytes))
    (shape : Lexeme.Shape kind w bytes.head?) (token : kind.isToken = true) :
    lexer.draw = (kind.token before.length w bytes.head?, lexer.moved (before ++ w).length) := by
  have flawless : lexer.buffer.fault? before.length ⟨kind, w.length⟩ = lexer.fault? := by
    rw [Buffer.fault?, Lexeme.Kind.defect?_of_isToken token, h.flawless]
    rfl
  rw [h.draw_shape shape (Lexeme.Kind.isTrivia_of_isToken token), flawless]
  rfl

theorem drain_congr {other : Lexer} (same : other.draw = lexer.draw) (steps : Nat) (drawn : Array Token) :
    other.drain (steps + 1) drawn = lexer.drain (steps + 1) drawn := by
  rw [drain, drain, same]

/-- Drawing to the end gives the tokens that the bytes are lexed as. -/
theorem Between.drain_eq {start : Nat} {ts : List Token} (lexed : Lexed start bytes ts)
    (h : lexer.Between before bytes) (place : before.length = start) {steps : Nat}
    (enough : bytes.length < steps) (drawn : Array Token) :
    (lexer.drain steps drawn).1.toList = drawn.toList ++ ts := by
  induction lexed generalizing lexer before steps drawn with
  | finish =>
      obtain ⟨steps, rfl⟩ := Nat.exists_eq_add_one.mpr (Nat.zero_lt_of_lt enough)
      subst place
      have last : (Lexeme.Kind.finish.token before.length [] none).isLast = true := rfl
      rw [drain, h.draw_shape (w := []) .finish rfl]
      simp [last]
  | @blank start b bytes ts blank others ih =>
      obtain ⟨steps, rfl⟩ := Nat.exists_eq_add_one.mpr (Nat.zero_lt_of_lt enough)
      have there : lexer.Between before ([b] ++ bytes) := h
      rw [← drain_congr (there.draw_blank blank)]
      exact ih there.moved (by simp [place]) (Nat.lt_of_succ_lt enough) drawn
  | @comment start w bytes ts line stop others ih =>
      obtain ⟨steps, rfl⟩ := Nat.exists_eq_add_one.mpr (Nat.zero_lt_of_lt enough)
      rw [← drain_congr (h.draw_comment line stop)]
      rw [List.length_append] at enough
      exact ih h.moved (by simp [place]) (by omega) drawn
  | @fault start kind w bytes fault shape =>
      obtain ⟨steps, rfl⟩ := Nat.exists_eq_add_one.mpr (Nat.zero_lt_of_lt enough)
      subst place
      rw [drain, h.draw_shape shape (Lexeme.Kind.isTrivia_of_isFault fault)]
      simp [Lexeme.Kind.isLast_token_of_isFault fault]
  | @token start kind w bytes ts token shape others ih =>
      obtain ⟨steps, rfl⟩ := Nat.exists_eq_add_one.mpr (Nat.zero_lt_of_lt enough)
      subst place
      have nonempty := List.length_pos_iff.mpr (shape.ne_nil (by rintro rfl; cases token))
      rw [List.length_append] at enough
      rw [drain, h.draw_token shape token]
      simp only [Lexeme.Kind.isLast_token_of_isToken token, Bool.false_eq_true, if_false]
      rw [ih h.moved (by simp) (by omega)]
      simp

end Lexer

/-- The tokens of a source are those that its bytes are lexed as. -/
theorem lex_eq_of_lexed {source : String} {ts : List Token} (lexed : Lexed 0 (Text.bytes source) ts) :
    (lex source).toList = ts := by
  have front : (Lexer.ofSource source).Between [] (Text.bytes source) :=
    ⟨Cursor.between_cursorFrom_zero source, rfl⟩
  have drained := front.drain_eq lexed rfl front.room #[]
  simpa [lex, Lexer.run] using drained

end BuildScript
