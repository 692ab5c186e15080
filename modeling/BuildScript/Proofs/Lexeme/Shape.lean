/-
Module: BuildScript.Proofs.Lexeme.Shape
Layer: proofs about lexemes
Purpose: What a lexeme of each kind looks like. Where a lexeme ends is decided by the one byte behind it, so
  a shape tells of bytes and of the byte that follows them, and of nothing in front of them. All bytes
  begin with a lexeme of some shape.
Main exports: Radix.Numeral, Lexeme.Shape, Lexeme.exists_shape, Shape.before_space
-/
import BuildScript.Lexeme.Basic
import BuildScript.Proofs.Source.Bytes
import Mathlib.Data.List.TakeWhile

namespace BuildScript

/-- What a number of the radix begins with. -/
def Radix.mark : Radix → String
  | .binary => "0b"
  | .octal => "0o"
  | .decimal => ""
  | .hexadecimal => "0x"

/-- The bytes are a number: the mark of the radix and at least one digit. -/
def Radix.Numeral (radix : Radix) (w : List UInt8) : Prop :=
  ∃ digits, w = Text.bytes radix.mark ++ digits ∧ digits ≠ [] ∧ ∀ b ∈ digits, radix.isDigit b = true

theorem Quoting.bytes_wrap (q : Quoting) (content : String) :
    Text.bytes (q.wrap content) = q.markBytes ++ Text.bytes content ++ q.markBytes := by
  have mark : Text.bytes q.mark = q.markBytes := by cases q <;> rfl
  rw [Quoting.wrap, Text.bytes_append, Text.bytes_append, mark]

/-- Content fits between quotes if it holds no closing mark and does not end in a quote. -/
theorem Quoting.fits_iff {q : Quoting} {content : String} : q.fits content = true ↔
    q.closes (Text.bytes content) = false ∧ (Text.bytes content).getLast? ≠ some Byte.quote := by
  simp [Quoting.fits, Text.bytes]

/-- Whether nothing but an invalid character begins with the byte. -/
def Byte.isStray (b : UInt8) : Bool :=
  !(isBlank b || b == hash || isWordStart b || isDigit b || b == quote || b == bang ||
    (Punct.ofByte? b).isSome)

namespace Lexeme

/-- Whether the kind is that of a token. -/
def Kind.isToken : Kind → Bool
  | .word | .number _ | .string _ | .punct _ => true
  | .space | .comment | .invalidChar | .unterminated _ | .malformedNumber | .loneBang | .finish => false

/-- Whether the kind is that of faulty source. -/
def Kind.isFault : Kind → Bool
  | .invalidChar | .unterminated _ | .malformedNumber | .loneBang => true
  | .word | .number _ | .string _ | .punct _ | .space | .comment | .finish => false

/-- The bytes `w` are a lexeme of the kind if `next` is the byte behind them, `none` being the end of the
    source. -/
inductive Shape : Kind → (w : List UInt8) → (next : Option UInt8) → Prop where
  | finish : Shape .finish [] none
  | space {w next} (nonempty : w ≠ []) (blank : ∀ b ∈ w, Byte.isBlank b = true)
      (stop : ∀ b ∈ next, Byte.isBlank b = false) : Shape .space w next
  | comment {w next} (line : Byte.newline ∉ w) (stop : ∀ b ∈ next, b = Byte.newline) :
      Shape .comment (Byte.hash :: w) next
  | word {b w next} (start : Byte.isWordStart b = true) (inside : ∀ x ∈ w, Byte.isWordByte x = true)
      (stop : ∀ x ∈ next, Byte.isWordByte x = false) : Shape .word (b :: w) next
  | number {radix w next} (numeral : Radix.Numeral radix w) (boundary : Byte.isBoundary next = true) :
      Shape (.number radix) w next
  | malformedNumber {b w next} (start : Byte.isDigit b = true)
      (inside : ∀ x ∈ w, Byte.isWordByte x = true) (stop : ∀ x ∈ next, Byte.isWordByte x = false)
      (other : ∀ radix : Radix, radix.Numeral (b :: w) → Byte.isBoundary next = false) :
      Shape .malformedNumber (b :: w) next
  /-- The content ends at the first closing mark; two single quotes are a string unless they are part of a
      triple mark. -/
  | string {q : Quoting} {w next} (unclosed : q.closes w = false) (last : w.getLast? ≠ some Byte.quote)
      (apart : q = .single → w = [] → next ≠ some Byte.quote) :
      Shape (.string q) (q.markBytes ++ w ++ q.markBytes) next
  | unterminated {q : Quoting} {w} (unclosed : q.closes w = false) :
      Shape (.unterminated q) (q.markBytes ++ w) none
  | punct {p : Punct} {next} (stop : p.withEquals? ≠ none → next ≠ some Byte.equals) :
      Shape (.punct p) (Text.bytes p.text) next
  | loneBang {next} (stop : next ≠ some Byte.equals) : Shape .loneBang [Byte.bang] next
  /-- A whole character, or what there is of one. -/
  | invalidChar {b w next} (stray : Byte.isStray b = true)
      (width : w.length + 1 = Byte.charWidth b ∨ next = none ∧ w.length + 1 < Byte.charWidth b) :
      Shape .invalidChar (b :: w) next

namespace Shape

variable {kind : Kind} {w : List UInt8} {next : Option UInt8}

/-- Only the end of the source is without a byte. -/
theorem ne_nil (shape : Shape kind w next) (other : kind ≠ .finish) : w ≠ [] := by
  cases shape with
  | finish => contradiction
  | space nonempty => exact nonempty
  | number numeral =>
      obtain ⟨digits, rfl, nonempty, -⟩ := numeral
      simp [nonempty]
  | @string q => cases q <;> simp [Quoting.markBytes]
  | @unterminated q => cases q <;> simp [Quoting.markBytes]
  | @punct p => cases p <;> decide
  | _ => simp

theorem eq_nil_of_finish {rest : List UInt8} (shape : Shape .finish w rest.head?) : w = [] ∧ rest = [] := by
  generalize first : rest.head? = next at shape
  cases shape
  exact ⟨rfl, List.head?_eq_none_iff.mp first⟩

/-- In front of the end there are blanks, a comment, faulty source or a token. -/
theorem cases_of_ne_finish (shape : Shape kind w next) (other : kind ≠ .finish) :
    (kind = .space ∧ ∀ b ∈ w, Byte.isBlank b = true) ∨
      (kind = .comment ∧ ∃ line, w = Byte.hash :: line ∧ Byte.newline ∉ line ∧ ∀ b ∈ next, b = Byte.newline) ∨
        kind.isFault = true ∨ kind.isToken = true := by
  cases shape with
  | finish => contradiction
  | space _ blank => exact .inl ⟨rfl, blank⟩
  | comment line stop => exact .inr (.inl ⟨rfl, _, rfl, line, stop⟩)
  | malformedNumber | unterminated | loneBang | invalidChar => exact .inr (.inr (.inl rfl))
  | word | number | string | punct => exact .inr (.inr (.inr rfl))

theorem isSpace_spec : ∀ b : UInt8, Byte.isSpace b = true → Byte.isBlank b = true ∧
    Byte.isWordByte b = false ∧ Byte.isBoundary (some b) = true ∧ b ≠ Byte.quote ∧ b ≠ Byte.equals :=
  Byte.forall_of_below (by decide +kernel)

/-- A token stays one if white space follows it. -/
theorem before_space (shape : Shape kind w next) (token : kind.isToken = true) {b : UInt8}
    (space : Byte.isSpace b = true) : Shape kind w (some b) := by
  obtain ⟨-, notWord, boundary, notQuote, notEquals⟩ := isSpace_spec b space
  cases shape with
  | word start inside => exact .word start inside (by simpa using notWord)
  | number numeral => exact .number numeral boundary
  | string unclosed last => exact .string unclosed last fun _ _ => by simpa using notQuote
  | punct => exact .punct fun _ => by simpa using notEquals
  | _ => cases token

end Shape

/-!
### Every byte is in a lexeme
-/

/-- The longest run of a class of bytes. -/
theorem exists_run (inRun : UInt8 → Bool) (bytes : List UInt8) :
    ∃ w more, bytes = w ++ more ∧ (∀ b ∈ w, inRun b = true) ∧ ∀ b ∈ more.head?, inRun b = false := by
  refine ⟨bytes.takeWhile inRun, bytes.dropWhile inRun, List.takeWhile_append_dropWhile.symm,
    fun b member => List.mem_takeWhile_imp member, fun b first => ?_⟩
  have stops := List.head?_dropWhile_not inRun bytes
  rw [Option.mem_def.mp first] at stops
  simpa using stops

/-- Behind an opening mark, either the string is closed or it never ends. -/
theorem exists_content (q : Quoting) (bytes : List UInt8) : q.closes bytes = false ∨
    ∃ w more, bytes = w ++ q.markBytes ++ more ∧ q.closes w = false ∧
      w.getLast? ≠ some Byte.quote := by
  induction bytes with
  | nil => exact .inl rfl
  | cons b bytes ih =>
      by_cases here : q.markBytes <+: b :: bytes
      · obtain ⟨more, found⟩ := here
        exact .inr ⟨[], more, by simp [found], rfl, by simp⟩
      · rcases ih with unclosed | ⟨w, more, rfl, unclosed, last⟩
        · refine .inl ?_
          rw [Quoting.closes, unclosed, Bool.or_false, Bool.eq_false_iff]
          exact fun mark => here (List.isPrefixOf_iff_prefix.mp mark)
        · have extended : b :: (w ++ q.markBytes ++ more) = b :: w ++ (q.markBytes ++ more) := by simp
          refine .inr ⟨b :: w, more, by simp, ?_, ?_⟩
          · rw [Quoting.closes, unclosed, Bool.or_false, Bool.eq_false_iff]
            intro mark
            apply here
            rw [extended]
            exact (List.isPrefixOf_iff_prefix.mp mark).trans (List.prefix_append _ _)
          · cases w with
            | nil =>
                intro ends
                obtain rfl : b = Byte.quote := by simpa using ends
                apply here
                cases q <;> simp [Quoting.markBytes]
            | cons x w => simpa using last

/-- Behind a quote there is a string, or what is left of the source is one without an end. -/
theorem exists_string (bytes : List UInt8) :
    ∃ kind w more, Byte.quote :: bytes = w ++ more ∧ Shape kind w more.head? := by
  by_cases triple : Quoting.triple.markBytes <+: Byte.quote :: bytes
  · obtain ⟨body, found⟩ := triple
    rw [← found]
    rcases exists_content .triple body with unclosed | ⟨w, more, rfl, unclosed, last⟩
    · exact ⟨_, _, [], by simp, .unterminated unclosed⟩
    · exact ⟨_, _, more, by simp, .string unclosed last (by simp)⟩
  · rcases exists_content .single bytes with unclosed | ⟨w, more, rfl, unclosed, last⟩
    · exact ⟨_, Quoting.single.markBytes ++ bytes, [], by simp [Quoting.markBytes], .unterminated unclosed⟩
    · refine ⟨_, Quoting.single.markBytes ++ w ++ Quoting.single.markBytes, more,
        by simp [Quoting.markBytes], .string unclosed last ?_⟩
      -- With another quote behind an empty string, the three are a triple mark.
      rintro - rfl next
      obtain ⟨others, rfl⟩ := List.head?_eq_some_iff.mp next
      apply triple
      simp [Quoting.markBytes]

/-- A run of word bytes that begins with a digit is a number, or it is malformed. -/
theorem exists_number {b : UInt8} (digit : Byte.isDigit b = true) (bytes : List UInt8) :
    ∃ kind w more, b :: bytes = w ++ more ∧ Shape kind w more.head? := by
  obtain ⟨w, more, rfl, inside, stop⟩ := exists_run Byte.isWordByte bytes
  by_cases number : ∃ radix : Radix, radix.Numeral (b :: w) ∧ Byte.isBoundary more.head? = true
  · obtain ⟨radix, numeral, boundary⟩ := number
    exact ⟨_, b :: w, more, rfl, .number numeral boundary⟩
  · refine ⟨_, b :: w, more, rfl, .malformedNumber digit inside stop fun radix numeral => ?_⟩
    rw [Bool.eq_false_iff]
    exact fun boundary => number ⟨radix, numeral, boundary⟩

theorem sign_bytes {b : UInt8} {p : Punct} (sign : Punct.ofByte? b = some p) :
    Text.bytes p.text = [b] ∧ ∀ q, p.withEquals? = some q →
      Text.bytes q.text = [b, Byte.equals] ∧ q.withEquals? = none := by
  obtain rfl : p.leadByte = b := by simpa using List.find?_some sign
  have single := List.mem_of_find?_eq_some sign
  cases p <;> first
    | exact ⟨rfl, fun q longer => by cases longer <;> exact ⟨rfl, rfl⟩⟩
    | exact absurd single (by decide)

/-- A sign takes an equals sign behind it if the two are one. -/
theorem exists_sign {b : UInt8} {p : Punct} (sign : Punct.ofByte? b = some p) (bytes : List UInt8) :
    ∃ kind w more, b :: bytes = w ++ more ∧ Shape kind w more.head? := by
  obtain ⟨alone, longer⟩ := sign_bytes sign
  by_cases extended : bytes.head? = some Byte.equals ∧ p.withEquals? ≠ none
  · obtain ⟨more, rfl⟩ := List.head?_eq_some_iff.mp extended.1
    obtain ⟨q, found⟩ := Option.ne_none_iff_exists'.mp extended.2
    obtain ⟨both, last⟩ := longer q found
    exact ⟨_, Text.bytes q.text, more, by simp [both], .punct fun more => absurd last more⟩
  · refine ⟨_, Text.bytes p.text, bytes, by simp [alone], .punct fun more next => ?_⟩
    exact extended ⟨next, more⟩

/-- An exclamation mark is a sign with an equals sign behind it, and a fault otherwise. -/
theorem exists_bang (bytes : List UInt8) :
    ∃ kind w more, Byte.bang :: bytes = w ++ more ∧ Shape kind w more.head? := by
  by_cases extended : bytes.head? = some Byte.equals
  · obtain ⟨more, rfl⟩ := List.head?_eq_some_iff.mp extended
    exact ⟨_, Text.bytes Punct.bangEq.text, more, rfl, .punct fun more => absurd rfl more⟩
  · exact ⟨_, [Byte.bang], bytes, rfl, .loneBang extended⟩

theorem exists_stray {b : UInt8} (stray : Byte.isStray b = true) (bytes : List UInt8) :
    ∃ kind w more, b :: bytes = w ++ more ∧ Shape kind w more.head? := by
  refine ⟨_, b :: bytes.take (Byte.charWidth b - 1), bytes.drop (Byte.charWidth b - 1), by simp,
    .invalidChar stray ?_⟩
  have positive : 0 < Byte.charWidth b := by
    unfold Byte.charWidth
    split_ifs <;> decide
  rw [List.length_take]
  by_cases whole : Byte.charWidth b - 1 ≤ bytes.length
  · left
    omega
  · right
    rw [List.drop_eq_nil_of_le (by omega)]
    exact ⟨rfl, by omega⟩

/-- All bytes begin with a lexeme. -/
theorem exists_shape (bytes : List UInt8) :
    ∃ kind w more, bytes = w ++ more ∧ Shape kind w more.head? := by
  cases bytes with
  | nil => exact ⟨_, [], [], rfl, .finish⟩
  | cons b bytes =>
      by_cases stray : Byte.isStray b = true
      · exact exists_stray stray bytes
      simp only [Byte.isStray, Bool.not_eq_true', Bool.not_eq_false, Bool.or_eq_true, beq_iff_eq] at stray
      rcases stray with (((((blank | rfl) | start) | digit) | rfl) | rfl) | sign
      · obtain ⟨w, more, rfl, inside, stop⟩ := exists_run Byte.isBlank bytes
        exact ⟨_, b :: w, more, rfl, .space (by simp) (List.forall_mem_cons.mpr ⟨blank, inside⟩) stop⟩
      · obtain ⟨w, more, rfl, inside, stop⟩ := exists_run (· != Byte.newline) bytes
        refine ⟨_, Byte.hash :: w, more, rfl, .comment (fun member => ?_) fun x first => ?_⟩
        · simpa using inside _ member
        · simpa using stop x first
      · obtain ⟨w, more, rfl, inside, stop⟩ := exists_run Byte.isWordByte bytes
        exact ⟨_, b :: w, more, rfl, .word start inside stop⟩
      · exact exists_number digit bytes
      · exact exists_string bytes
      · exact exists_bang bytes
      · obtain ⟨p, sign⟩ := Option.isSome_iff_exists.mp sign
        exact exists_sign sign bytes

end Lexeme

end BuildScript
