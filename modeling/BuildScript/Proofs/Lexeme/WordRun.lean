/-
Module: BuildScript.Proofs.Lexeme.WordRun
Layer: proofs about lexemes
Purpose: A lexeme that begins with a letter, a digit or an underscore is the whole run of such bytes, whatever
  becomes of it. The run and the byte behind it tell whether it is a word, a number of some radix or
  malformed, and whether a word is reserved.
Main exports: Text.wordRun, Lexeme.Kind.OfRun, Token.OfRun, WordScan, scan_wordRun
-/
import BuildScript.Proofs.Lexeme.Tiling

namespace BuildScript

/-!
### Runs
-/

namespace Text

/-- The letters, digits and underscores that stand together from byte `start` of the source on. -/
def wordRun (source : String) (start : Nat) : List UInt8 :=
  ((bytes source).drop start).takeWhile Byte.isWordByte

/-- The byte behind them, `none` being the end of the source. -/
def behindRun (source : String) (start : Nat) : Option UInt8 :=
  (bytes source)[start + (wordRun source start).length]?

/-- The source from byte `start` on is the run and what cannot be part of it. -/
theorem exists_behindRun (source : String) (start : Nat) :
    ∃ rest, (bytes source).drop start = wordRun source start ++ rest ∧
      rest.head? = behindRun source start ∧ ∀ b ∈ rest.head?, Byte.isWordByte b = false := by
  obtain ⟨run, rest, split, inside, stop⟩ := Lexeme.exists_run Byte.isWordByte ((bytes source).drop start)
  have same : wordRun source start = run := by
    rw [wordRun, split, List.takeWhile_append_of_pos inside]
    cases rest with
    | nil => simp
    | cons b rest => simp [stop b rfl]
  refine ⟨rest, same ▸ split, ?_, stop⟩
  have behind := congrArg (List.drop run.length) split
  rw [List.drop_left, List.drop_drop] at behind
  rw [behindRun, same, ← List.head?_drop, behind]

theorem isWordByte_of_mem_wordRun {source : String} {start : Nat} :
    ∀ b ∈ wordRun source start, Byte.isWordByte b = true :=
  fun _ member => List.mem_takeWhile_imp member

/-- A run of word bytes is text by itself, since all of them are ASCII. -/
theorem bytes_ofBytes_of_word {source : String} {before run rest : List UInt8}
    (content : bytes source = before ++ (run ++ rest)) (word : ∀ b ∈ run, Byte.isWordByte b = true) :
    bytes (ofBytes run) = run := by
  have ascii : ∀ b ∈ run, b < 128 := fun b member => Byte.isWordByte_lt b (word b member)
  cases run with
  | nil => rw [ofBytes]; rfl
  | cons b w =>
      have start : Edge source before.length := edge_of_ascii content (ascii b List.mem_cons_self)
      exact bytes_ofBytes content start (edge_behind_all content start ascii)

end Text

/-!
### Kinds
-/

/-- What a run of word bytes in front of `next` is: a word unless a digit begins it, a number if it is written
    like one and may end there, and else malformed. -/
structure Lexeme.Kind.OfRun (kind : Lexeme.Kind) (run : List UInt8) (next : Option UInt8) : Prop where
  word : kind = .word ↔ ∀ b ∈ run.head?, Byte.isDigit b = false
  number : ∀ radix : Radix, kind = .number radix ↔ radix.Numeral run ∧ Byte.isBoundary next = true
  malformed : kind = .malformedNumber ↔
    (∃ b ∈ run.head?, Byte.isDigit b = true) ∧
      ∀ radix : Radix, radix.Numeral run → Byte.isBoundary next = false

/-- What the token of a word in front of `next` is: a reserved word only at a boundary, and else a name. -/
structure Token.OfRun (t : Token) (run : List UInt8) (next : Option UInt8) : Prop where
  text : Text.bytes t.text = run
  keyword : ∀ k : Keyword, t.kind = .keyword k ↔ Text.bytes k.text = run ∧ Byte.isBoundary next = true
  name : t.kind = .name ↔ ∀ k : Keyword, Text.bytes k.text = run → Byte.isBoundary next = false

theorem Byte.isWordStart_of_isWordByte {b : UInt8} (word : isWordByte b = true)
    (other : isDigit b = false) : isWordStart b = true := by
  simpa [isWordByte, other] using word

namespace Lexeme

variable {b : UInt8} {w rest : List UInt8}

/-- A run of word bytes is a lexeme as a whole. -/
theorem exists_shape_of_run (first : Byte.isWordByte b = true) (inside : ∀ x ∈ w, Byte.isWordByte x = true)
    {next : Option UInt8} (stop : ∀ x ∈ next, Byte.isWordByte x = false) :
    ∃ kind, Shape kind (b :: w) next := by
  cases digit : Byte.isDigit b with
  | false => exact ⟨_, .word (Byte.isWordStart_of_isWordByte first digit) inside stop⟩
  | true =>
      by_cases number : ∃ radix : Radix, radix.Numeral (b :: w) ∧ Byte.isBoundary next = true
      · obtain ⟨radix, numeral, boundary⟩ := number
        exact ⟨_, .number numeral boundary⟩
      · refine ⟨_, .malformedNumber digit inside stop fun radix numeral => ?_⟩
        rw [Bool.eq_false_iff]
        exact fun boundary => number ⟨radix, numeral, boundary⟩

/-- The same bytes are a lexeme of one kind only. -/
theorem Shape.kind_unique {c : Cursor} {before : List UInt8} {kind kind' : Kind}
    (h : c.Between before (w ++ rest)) (shape : Shape kind w rest.head?)
    (shape' : Shape kind' w rest.head?) : kind = kind' := by
  have scanned := (shape.scan h).symm.trans (shape'.scan h)
  simp only [Prod.mk.injEq, Lexeme.mk.injEq] at scanned
  exact scanned.1.1

/-- The kind of a run is told by how it is written. -/
theorem Shape.ofRun {c : Cursor} {before : List UInt8} {kind : Kind}
    (shape : Shape kind (b :: w) rest.head?) (h : c.Between before (b :: w ++ rest))
    (all : ∀ x ∈ b :: w, Byte.isWordByte x = true) (stop : ∀ x ∈ rest.head?, Byte.isWordByte x = false) :
    kind.OfRun (b :: w) rest.head? := by
  obtain ⟨first, inside⟩ := List.forall_mem_cons.mp all
  have unique {kind' : Kind} (shape' : Shape kind' (b :: w) rest.head?) : kind = kind' :=
    shape.kind_unique h shape'
  constructor
  case word =>
    constructor
    · rintro rfl
      generalize rest.head? = next at shape
      cases shape with
      | word start =>
          have other : Byte.isDigit b = false := by
            rw [Bool.eq_false_iff]
            intro digit
            rw [(Byte.isDigit_spec b digit).2.2.2.2.1] at start
            cases start
          simpa using other
    · intro other
      exact unique (.word (Byte.isWordStart_of_isWordByte first (other b rfl)) inside stop)
  case number =>
    intro radix
    constructor
    · rintro rfl
      generalize rest.head? = next at shape
      cases shape with
      | number numeral boundary => exact ⟨numeral, boundary⟩
    · intro h
      obtain ⟨numeral, boundary⟩ := h
      exact unique (.number numeral boundary)
  case malformed =>
    constructor
    · rintro rfl
      generalize rest.head? = next at shape
      cases shape with
      | malformedNumber start _ _ other => exact ⟨⟨b, rfl, start⟩, other⟩
    · intro h
      obtain ⟨⟨_, ⟨⟩, digit⟩, other⟩ := h
      exact unique (.malformedNumber digit inside stop other)

end Lexeme

/-!
### Tokens
-/

/-- The token of a word is reserved exactly if its text is and a boundary follows. -/
theorem Token.ofRun_word {run : List UInt8} {next : Option UInt8} (start : Nat)
    (text : Text.bytes (Text.ofBytes run) = run) :
    (Lexeme.Kind.word.token start run next).OfRun run next := by
  have found (k : Keyword) (spelt : Text.bytes k.text = run) :
      Keyword.ofText? (Text.ofBytes run) = some k := by
    rw [← spelt, Text.ofBytes_bytes, k.ofText?_text]
  have reserved (k : Keyword) : Lexeme.Kind.tokenKind .word run next = .keyword k ↔
      Text.bytes k.text = run ∧ Byte.isBoundary next = true := by
    constructor
    · intro kind
      refine ⟨by rw [Lexeme.Kind.text_of_tokenKind_word kind, text], ?_⟩
      by_contra other
      rw [Lexeme.Kind.tokenKind] at kind
      split at kind
      · rw [if_neg other] at kind
        cases kind
      · cases kind
    · intro h
      obtain ⟨spelt, boundary⟩ := h
      simp [Lexeme.Kind.tokenKind, found k spelt, boundary]
  refine ⟨text, reserved, ?_⟩
  constructor
  · intro name k spelt
    rw [Bool.eq_false_iff]
    intro boundary
    have kind := (reserved k).mpr ⟨spelt, boundary⟩
    rw [show Lexeme.Kind.tokenKind .word run next = .name from name] at kind
    cases kind
  · intro other
    rcases Lexeme.Kind.tokenKind_word run next with name | ⟨k, kind⟩
    · exact name
    · obtain ⟨spelt, boundary⟩ := (reserved k).mp kind
      rw [other k spelt] at boundary
      cases boundary

/-!
### Sources
-/

/-- What is found at byte `start` of the source is the run of word bytes there, and a word is drawn as a token
    from a lexer that stands there. -/
structure WordScan (source : String) (start : Nat) : Prop where
  length : ((Buffer.ofSource source).cursorFrom start).scan.1.length = (Text.wordRun source start).length
  stop : ((Buffer.ofSource source).cursorFrom start).scan.2.position =
    start + (Text.wordRun source start).length
  kind : ((Buffer.ofSource source).cursorFrom start).scan.1.kind.OfRun (Text.wordRun source start)
    (Text.behindRun source start)
  token : ((Buffer.ofSource source).cursorFrom start).scan.1.kind = .word →
    ∀ lexer : Lexer, lexer.buffer = Buffer.ofSource source → lexer.position = start →
      lexer.fault? = none → lexer.draw.1.OfRun (Text.wordRun source start) (Text.behindRun source start)

/-- From a letter, a digit or an underscore on, the whole run of such bytes is scanned, and how it is written
    and what follows it tell what it is. -/
theorem scan_wordRun {source : String} {start : Nat} {b : UInt8} (here : (Text.bytes source)[start]? = some b)
    (word : Byte.isWordByte b = true) : WordScan source start := by
  obtain ⟨rest, split, behind, stop⟩ := Text.exists_behindRun source start
  have all : ∀ x ∈ Text.wordRun source start, Byte.isWordByte x = true := Text.isWordByte_of_mem_wordRun
  -- The run holds at least the byte at `start`, so it is a lexeme.
  obtain ⟨w, run⟩ : ∃ w, Text.wordRun source start = b :: w := by
    rw [← List.head?_drop] at here
    obtain ⟨more, same⟩ := List.head?_eq_some_iff.mp here
    exact ⟨_, by rw [Text.wordRun, same, List.takeWhile_cons_of_pos word]⟩
  have content := (List.take_append_drop start (Text.bytes source)).symm
  have between := Cursor.between_cursorFrom source start
  rw [split] at content between
  have text := Text.bytes_ofBytes_of_word content all
  obtain ⟨kind, shape⟩ := Lexeme.exists_shape_of_run word (List.forall_mem_cons.mp (run ▸ all)).2 stop
  rw [← run] at shape
  have scanned := shape.scan between
  constructor
  case length => rw [scanned]
  case stop =>
    have inside : start ≤ (Text.bytes source).length := Nat.le_of_lt (List.getElem?_eq_some_iff.mp here).1
    rw [scanned, Cursor.forward, between.position, List.length_take_of_le inside]
  case kind =>
    rw [scanned, ← behind, run]
    rw [run] at shape between all
    exact shape.ofRun between all stop
  case token =>
    intro is_word lexer buffer position flawless
    rw [scanned] at is_word
    obtain rfl : kind = .word := is_word
    have cursor : lexer.buffer.cursorFrom lexer.position = (Buffer.ofSource source).cursorFrom start := by
      rw [buffer, position]
    have begins : lexer.Between ((Text.bytes source).take start) (Text.wordRun source start ++ rest) :=
      ⟨cursor ▸ between, flawless⟩
    rw [begins.draw_token shape rfl, ← behind]
    exact Token.ofRun_word _ text

/-- A scan may begin inside a word; what is left of it is an octal number here. -/
theorem scan_wordRun_inside_word : (Text.bytes "x0o17[")[1]? = some 48 ∧ Byte.isWordByte 48 = true ∧
    WordScan "x0o17[" 1 :=
  have here : (Text.bytes "x0o17[")[1]? = some 48 := by decide +kernel
  ⟨here, by decide, scan_wordRun here (by decide)⟩

end BuildScript
