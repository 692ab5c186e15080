/-
Module: BuildScript.Proofs.Lexeme.Recognize
Layer: proofs about lexemes
Purpose: What a cursor recognises in front of given bytes: the lexeme that their shape tells.
Main exports: Quoting.not_prefix_of_unclosed, Shape.recognize, Shape.scan
-/
import BuildScript.Lexeme.Scan
import BuildScript.Proofs.Lexeme.Shape
import BuildScript.Proofs.Source.Remaining

namespace BuildScript

/-!
### Byte classes
-/

namespace Byte

/-- A word is recognised before anything else could claim its first byte. -/
theorem isWordStart_spec : ∀ b : UInt8, isWordStart b = true →
    isWordByte b = true ∧ isBlank b = false ∧ (b == hash) = false ∧ (b == 0) = false := by
  grind [isWordStart, isWordByte, isBlank, isSpace, hash]

/-- The letters that announce a number system. -/
theorem markers : 'b'.toUInt8 = 98 ∧ 'o'.toUInt8 = 111 ∧ 'x'.toUInt8 = 120 := by
  decide

/-- A digit begins a number and nothing else, and it announces no number system. -/
theorem isDigit_spec : ∀ b : UInt8, isDigit b = true →
    isWordByte b = true ∧ isBlank b = false ∧ (b == hash) = false ∧ (b == 0) = false ∧
      isWordStart b = false ∧ Radix.ofMarker? b = none := by
  grind [isDigit, isWordStart, isWordByte, isBlank, isSpace, hash, Radix.ofMarker?, markers]

theorem isBlank_spec : ∀ b : UInt8, isBlank b = true → (b == 0) = false := by
  grind [isBlank, isSpace]

/-- Words are made of ASCII only. -/
theorem isWordByte_lt : ∀ b : UInt8, isWordByte b = true → b < 128 := by
  grind [isWordByte, isWordStart, isDigit]

/-- What may stand behind a number cannot be a part of it. -/
theorem isBoundary_spec : ∀ b : UInt8, isBoundary (some b) = true →
    isWordByte b = false ∧ isDigit b = false ∧ Radix.ofMarker? b = none ∧ (b == quote) = false :=
  forall_of_below (by decide +kernel)

/-- The digits of every number system are word bytes. -/
theorem isWordByte_of_isDigit (radix : Radix) : ∀ b : UInt8, radix.isDigit b = true →
    isWordByte b = true := by
  cases radix <;> grind [Radix.isDigit, isWordByte, isWordStart, isDigit]

/-- The letters that announce a number system are word bytes. -/
theorem isWordByte_of_ofMarker? : ∀ b : UInt8, Radix.ofMarker? b ≠ none → isWordByte b = true := by
  grind [Radix.ofMarker?, markers, isWordByte, isWordStart]

end Byte

/-!
### Marks
-/

namespace Quoting

/-- Where no mark closes the content, no part at the end of it begins with the mark. -/
theorem not_prefix_of_closes {q : Quoting} {bytes : List UInt8} (unclosed : q.closes bytes = false)
    {d : List UInt8} (part : d <:+ bytes) : ¬ q.markBytes <+: d := by
  induction bytes with
  | nil =>
      obtain rfl := List.suffix_nil.mp part
      cases q <;> simp [Quoting.markBytes]
  | cons b bytes ih =>
      simp only [Quoting.closes, Bool.or_eq_false_iff] at unclosed
      rcases List.suffix_cons_iff.mp part with rfl | part
      · intro mark
        simp [List.isPrefixOf_iff_prefix.mpr mark] at unclosed
      · exact ih unclosed.2 part

/-- The first closing mark behind content without one is its own: none begins earlier. -/
theorem not_prefix_of_unclosed {q : Quoting} {w rest : List UInt8} (unclosed : q.closes w = false)
    (last : w.getLast? ≠ some Byte.quote) (i : Nat) (inside : i < w.length) :
    ¬ q.markBytes <+: (w ++ q.markBytes ++ rest).drop i := by
  rw [List.append_assoc, List.drop_append_of_le_length (Nat.le_of_lt inside)]
  intro mark
  have part : w.drop i <:+ w := List.drop_suffix i _
  by_cases long : q.markBytes.length ≤ (w.drop i).length
  · exact not_prefix_of_closes unclosed part
      (List.prefix_of_prefix_length_le mark (List.prefix_append _ _) long)
  · -- A mark that begins so late would make the content end in a quote.
    have short : w.drop i <+: q.markBytes :=
      List.prefix_of_prefix_length_le (List.prefix_append _ _) mark (Nat.le_of_not_le long)
    have nonempty : w.drop i ≠ [] := by simpa using inside
    have is_quote : (w.drop i).getLast nonempty = Byte.quote := by
      have member := short.subset (List.getLast_mem nonempty)
      cases q <;> simpa [Quoting.markBytes] using member
    apply last
    rw [← is_quote, ← List.getLast?_eq_some_getLast nonempty, List.getLast?_drop,
      if_neg (Nat.not_le.mpr inside)]

end Quoting

namespace Cursor.Between

variable {c : Cursor} {before rest : List UInt8}

/-- A run that is followed by nothing of its class is skipped as a whole. -/
theorem skipWhile_append {w : List UInt8} (h : c.Between before (w ++ rest)) {inRun : UInt8 → Bool}
    (zero : inRun 0 = false) (inside : ∀ b ∈ w, inRun b = true)
    (stop : ∀ b, rest.head? = some b → inRun b = false) :
    c.skipWhile inRun = c.forward w.length := by
  have ends : rest.takeWhile inRun = [] := by
    cases rest with
    | nil => rfl
    | cons b rest => simp [stop b rfl]
  rw [h.skipWhile inRun zero, List.takeWhile_append_of_pos inside, ends, List.append_nil]

/-- At the end there is nothing to recognise. -/
theorem recognize_end (h : c.Between before []) : c.recognize = (.finish, c) := by
  simp [recognize, h.current, h.isEnd]

/-- Blanks are recognised up to the first byte that is none. -/
theorem recognize_blank {b : UInt8} {w : List UInt8} (h : c.Between before (b :: w ++ rest))
    (blank : ∀ x ∈ b :: w, Byte.isBlank x = true)
    (stop : ∀ b, rest.head? = some b → Byte.isBlank b = false) :
    c.recognize = (.space, c.forward (b :: w).length) := by
  have first : c.current = b := h.current
  have nonzero := Byte.isBlank_spec b (blank b List.mem_cons_self)
  simp only [recognize, first, nonzero, Bool.false_and, Bool.false_eq_true, if_false,
    blank b List.mem_cons_self, if_true]
  rw [h.skipWhile_append rfl blank stop]

/-- A comment ends in front of the newline, or at the end of the source. -/
theorem recognize_comment {w : List UInt8} (h : c.Between before (Byte.hash :: w ++ rest))
    (line : Byte.newline ∉ w) (stop : ∀ b, rest.head? = some b → b = Byte.newline) :
    c.recognize = (.comment, c.forward (Byte.hash :: w).length) := by
  have first : c.current = Byte.hash := h.current
  have recognized : c.recognize = (.comment, c.skipToNewline) := by
    simp only [recognize, first]
    rfl
  have absent (i : Nat) : ¬ (Byte.hash :: w)[i]? = some Byte.newline := by
    intro found
    rcases List.mem_cons.mp (List.mem_of_getElem? found) with same | member
    · cases same
    · exact line member
  rw [recognized, skipToNewline]
  cases rest with
  | nil =>
      rw [List.append_nil] at h
      rw [h.distance?_eq_none, h.toEnd]
      rintro i - ⟨more, found⟩
      apply absent i
      rw [← List.head?_drop, ← found]
      rfl
  | cons b rest =>
      obtain rfl := stop b rfl
      have there : c.Between before (Byte.hash :: w ++ [Byte.newline] ++ rest) := by simpa using h
      rw [there.distance?_eq_some]
      rintro i inside ⟨more, found⟩
      apply absent i
      have first : (Byte.hash :: w ++ [Byte.newline] ++ rest)[i]? = some Byte.newline := by
        rw [← List.head?_drop, ← found]
        rfl
      rwa [List.append_assoc, List.getElem?_append_left inside] at first

/-- A word ends in front of the first byte that is no word byte. -/
theorem recognize_word {b : UInt8} {w : List UInt8} (h : c.Between before (b :: w ++ rest))
    (start : Byte.isWordStart b = true) (word : ∀ x ∈ w, Byte.isWordByte x = true)
    (stop : ∀ b, rest.head? = some b → Byte.isWordByte b = false) :
    c.recognize = (.word, c.forward (b :: w).length) := by
  have first : c.current = b := h.current
  obtain ⟨isWord, blank, hash, nonzero⟩ := Byte.isWordStart_spec b start
  simp only [recognize, first, nonzero, Bool.false_and, blank, hash, Bool.false_eq_true, if_false, start,
    if_true]
  rw [h.skipWhile_append rfl (List.forall_mem_cons.mpr ⟨isWord, word⟩) stop]

/-!
### Numbers
-/

/-- A digit sends the cursor to the numbers. -/
theorem recognize_digit {b : UInt8} (h : c.Between before (b :: rest)) (digit : Byte.isDigit b = true) :
    c.recognize = c.number := by
  have first : c.current = b := h.current
  obtain ⟨-, blank, hash, nonzero, notWord, -⟩ := Byte.isDigit_spec b digit
  simp only [recognize, first, nonzero, Bool.false_and, blank, hash, notWord, Bool.false_eq_true, if_false,
    digit, if_true]

theorem zero_not_digit (radix : Radix) : radix.isDigit 0 = false := by
  cases radix <;> rfl

/-- Digits in front of a boundary are a number. -/
theorem digits_eq {radix : Radix} {w : List UInt8} (h : c.Between before (w ++ rest))
    (digits : ∀ b ∈ w, radix.isDigit b = true) (boundary : Byte.isBoundary rest.head? = true) :
    c.digits radix = (.number radix, c.forward w.length) := by
  have skipped : c.skipWhile radix.isDigit = c.forward w.length :=
    h.skipWhile_append (zero_not_digit radix) digits fun x first => by
      rw [first] at boundary
      rw [Bool.eq_false_iff]
      intro digit
      have word := Byte.isWordByte_of_isDigit radix x digit
      rw [(Byte.isBoundary_spec x boundary).1] at word
      cases word
  have next : (c.forward w.length).current? = rest.head? := h.forward.current?
  simp only [Cursor.digits, skipped, next, boundary, if_true]

/-- A malformed number takes the whole run of word bytes. -/
theorem malformedNumber_eq {w : List UInt8} (h : c.Between before (w ++ rest))
    (word : ∀ b ∈ w, Byte.isWordByte b = true)
    (stop : ∀ b, rest.head? = some b → Byte.isWordByte b = false) :
    c.malformedNumber = (.malformedNumber, c.forward w.length) := by
  rw [malformedNumber, h.skipWhile_append rfl word stop]

/-- A run of word bytes that is more than digits, or in front of no boundary, is malformed. -/
theorem digits_malformed {radix : Radix} {w : List UInt8} (h : c.Between before (w ++ rest))
    (word : ∀ b ∈ w, Byte.isWordByte b = true)
    (stop : ∀ b, rest.head? = some b → Byte.isWordByte b = false)
    (other : (∀ b ∈ w, radix.isDigit b = true) → Byte.isBoundary rest.head? = false) :
    c.digits radix = (.malformedNumber, c.forward w.length) := by
  obtain ⟨front, back, rfl, digits, ends⟩ := Lexeme.exists_run radix.isDigit w
  rw [List.append_assoc] at h
  have skipped : c.skipWhile radix.isDigit = c.forward front.length :=
    h.skipWhile_append (zero_not_digit radix) digits fun x first => by
      cases back with
      | nil =>
          rw [Bool.eq_false_iff]
          intro digit
          have word := Byte.isWordByte_of_isDigit radix x digit
          rw [stop x first] at word
          cases word
      | cons y back => exact ends x first
  have behind := h.forward
  have next : Byte.isBoundary (c.forward front.length).current? = false := by
    rw [behind.current?]
    cases back with
    | nil => exact other (by simpa using digits)
    | cons y back =>
        rw [Bool.eq_false_iff]
        intro boundary
        have word := word y (by simp)
        rw [(Byte.isBoundary_spec y boundary).1] at word
        cases word
  have tail := behind.malformedNumber_eq (fun b member => word b (List.mem_append_right _ member)) stop
  simp only [Cursor.digits, skipped, next, Bool.false_eq_true, if_false]
  rw [tail, forward_forward, List.length_append]

/-- Only a zero can have the letter of a radix behind it. -/
theorem radixMark?_eq {b : UInt8} {more : List UInt8} (h : c.Between before (b :: more)) :
    c.radixMark? = if b == '0'.toUInt8 then Radix.ofMarker? (more.headD 0) else none := by
  have first : c.current = b := h.current
  have second : c.peek = more.headD 0 := by
    rw [h.peek]
    cases more <;> rfl
  rw [radixMark?, first, second]

/-- The mark of a radix is a zero with the letter that tells it, except for decimal numbers, which have none. -/
theorem mark_spec (radix : Radix) : (radix = .decimal ∧ Text.bytes radix.mark = []) ∨
    ∃ m, Text.bytes radix.mark = ['0'.toUInt8, m] ∧ Radix.ofMarker? m = some radix := by
  cases radix with
  | decimal => exact .inl ⟨rfl, rfl⟩
  | binary | octal | hexadecimal => exact .inr ⟨_, rfl, rfl⟩

theorem mark_of_ofMarker? {m : UInt8} {radix : Radix} (marks : Radix.ofMarker? m = some radix) :
    Text.bytes radix.mark = ['0'.toUInt8, m] := by
  unfold Radix.ofMarker? at marks
  split_ifs at marks with binary octal hexadecimal <;> cases marks
  · rw [beq_iff_eq.mp binary]
    rfl
  · rw [beq_iff_eq.mp octal]
    rfl
  · rw [beq_iff_eq.mp hexadecimal]
    rfl

/-- Without a mark the digits are decimal. -/
theorem number_unmarked {b : UInt8} {more : List UInt8} (h : c.Between before (b :: more))
    (unmarked : b = '0'.toUInt8 → Radix.ofMarker? (more.headD 0) = none) :
    c.number = c.digits .decimal := by
  have mark : c.radixMark? = none := by
    rw [h.radixMark?_eq]
    split_ifs with zero
    · exact unmarked (beq_iff_eq.mp zero)
    · rfl
  rw [number, mark]

/-- Behind a mark a digit of its radix has to follow. -/
theorem number_marked {m : UInt8} {radix : Radix} (h : c.Between before ('0'.toUInt8 :: m :: rest))
    (marks : Radix.ofMarker? m = some radix) :
    c.number = if radix.isDigit (rest.headD 0) then (c.forward 2).digits radix
      else (c.forward 2).malformedNumber := by
  have mark : c.radixMark? = some radix := by
    rw [h.radixMark?_eq]
    exact marks
  have next : (c.forward 2).current = rest.headD 0 :=
    (h.forward (w := ['0'.toUInt8, m])).current
  rw [number, mark, ← next]

/-- A numeral in front of a boundary is recognised as a number of its radix. -/
theorem recognize_number {radix : Radix} {w : List UInt8} (h : c.Between before (w ++ rest))
    (numeral : radix.Numeral w) (boundary : Byte.isBoundary rest.head? = true) :
    c.recognize = (.number radix, c.forward w.length) := by
  obtain ⟨digits, rfl, nonempty, all⟩ := numeral
  obtain ⟨d, ds, rfl⟩ := List.exists_cons_of_ne_nil nonempty
  rcases mark_spec radix with ⟨rfl, mark⟩ | ⟨m, mark, marks⟩
  · rw [mark, List.nil_append] at h ⊢
    have digit := all d List.mem_cons_self
    rw [h.recognize_digit digit, h.number_unmarked, h.digits_eq all boundary]
    rintro -
    cases ds with
    | cons x ds => exact (Byte.isDigit_spec x (all x (by simp))).2.2.2.2.2
    | nil =>
        cases rest with
        | nil => rfl
        | cons x rest => exact (Byte.isBoundary_spec x boundary).2.2.1
  · rw [mark] at h ⊢
    have behind : (c.forward 2).Between (before ++ ['0'.toUInt8, m]) (d :: ds ++ rest) :=
      Cursor.Between.forward (w := ['0'.toUInt8, m]) (by simpa using h)
    have digit : radix.isDigit ((d :: (ds ++ rest)).headD 0) = true := all d List.mem_cons_self
    rw [h.recognize_digit rfl, number_marked (by simpa using h) marks, if_pos digit,
      behind.digits_eq all boundary, forward_forward, List.length_append]
    rfl

/-- A digit that begins no numeral begins a malformed number, and so does a numeral in front of no boundary. -/
theorem recognize_malformed {b : UInt8} {w : List UInt8} (h : c.Between before (b :: w ++ rest))
    (digit : Byte.isDigit b = true) (word : ∀ x ∈ w, Byte.isWordByte x = true)
    (stop : ∀ b, rest.head? = some b → Byte.isWordByte b = false)
    (other : ∀ radix : Radix, radix.Numeral (b :: w) → Byte.isBoundary rest.head? = false) :
    c.recognize = (.malformedNumber, c.forward (b :: w).length) := by
  have isWord : ∀ x ∈ b :: w, Byte.isWordByte x = true :=
    List.forall_mem_cons.mpr ⟨(Byte.isDigit_spec b digit).1, word⟩
  rw [h.recognize_digit digit]
  by_cases marked : b = '0'.toUInt8 ∧ Radix.ofMarker? ((w ++ rest).headD 0) ≠ none
  · obtain ⟨rfl, marked⟩ := marked
    obtain ⟨radix, marks⟩ := Option.ne_none_iff_exists'.mp marked
    -- The letter of the mark is a word byte, so it does not stand behind the run.
    obtain ⟨m, ds, rfl⟩ : ∃ m ds, w = m :: ds := by
      cases w with
      | cons m ds => exact ⟨m, ds, rfl⟩
      | nil =>
          have letter := Byte.isWordByte_of_ofMarker? _ marked
          cases rest with
          | nil => cases marks
          | cons x rest => exact absurd (stop x rfl) (by simpa using letter)
    have behind : (c.forward 2).Between (before ++ ['0'.toUInt8, m]) (ds ++ rest) :=
      Cursor.Between.forward (w := ['0'.toUInt8, m]) (by simpa using h)
    have tail := fun x member => word x (List.mem_cons_of_mem m member)
    have length : (c.forward 2).forward ds.length = c.forward ('0'.toUInt8 :: m :: ds).length := by
      rw [forward_forward, List.length_cons, List.length_cons, Nat.add_comm]
    have here : c.Between before ('0'.toUInt8 :: m :: (ds ++ rest)) := by simpa using h
    rw [here.number_marked marks]
    split_ifs with begins
    · rw [behind.digits_malformed tail stop, length]
      intro digits
      cases ds with
      | cons d ds =>
          apply other radix
          exact ⟨d :: ds, by rw [mark_of_ofMarker? marks]; rfl, by simp, digits⟩
      | nil =>
          cases rest with
          | nil => simp [zero_not_digit] at begins
          | cons x rest =>
              have isWord := Byte.isWordByte_of_isDigit radix x begins
              rw [stop x rfl] at isWord
              cases isWord
    · rw [behind.malformedNumber_eq tail stop, length]
  · rw [h.number_unmarked, h.digits_malformed isWord stop]
    · exact fun digits => other .decimal ⟨b :: w, rfl, by simp, digits⟩
    · intro zero
      by_contra marks
      exact marked ⟨zero, marks⟩

/-!
### Signs
-/

/-- An equals sign belongs to the sign that it extends. -/
theorem sign_extended {b : UInt8} {alone : Lexeme.Kind} {longer : Punct}
    (h : c.Between before (b :: Byte.equals :: rest)) :
    c.sign alone (some longer) = (.punct longer, c.forward 2) := by
  have next : c.step.current = Byte.equals := h.step.current
  simp only [sign, next, beq_self_eq_true, if_true]
  rfl

/-- Without an equals sign behind it, or without a longer form, a sign stands alone. -/
theorem sign_alone {b : UInt8} {alone : Lexeme.Kind} {extended : Option Punct}
    (h : c.Between before (b :: rest)) (stop : extended ≠ none → rest.head? ≠ some Byte.equals) :
    c.sign alone extended = (alone, c.forward 1) := by
  cases extended with
  | none => rfl
  | some longer =>
      have next : (c.step.current == Byte.equals) = false := by
        rw [h.step.current]
        cases rest with
        | nil => rfl
        | cons x rest => simpa using stop
      simp only [sign, next, Bool.false_eq_true, if_false]
      rfl

/-- A sign is its first byte, or that and an equals sign. -/
theorem sign_spec (p : Punct) : (p = .bangEq ∧ Text.bytes p.text = [Byte.bang, Byte.equals]) ∨
    ∃ q, Punct.ofByte? p.leadByte = some q ∧ (p.leadByte == Byte.bang) = false ∧
      ((p = q ∧ Text.bytes p.text = [p.leadByte]) ∨
        (q.withEquals? = some p ∧ Text.bytes p.text = [p.leadByte, Byte.equals])) := by
  cases p <;> first
    | exact .inl ⟨rfl, rfl⟩
    | exact .inr ⟨_, rfl, rfl, .inl ⟨rfl, rfl⟩⟩
    | exact .inr ⟨_, rfl, rfl, .inr ⟨rfl, rfl⟩⟩

/-- The lead byte of a sign begins nothing but signs. -/
theorem leadByte_spec (p : Punct) : (p.leadByte == 0) = false ∧ Byte.isBlank p.leadByte = false ∧
    (p.leadByte == Byte.hash) = false ∧ Byte.isWordStart p.leadByte = false ∧
    Byte.isDigit p.leadByte = false ∧ (p.leadByte == Byte.quote) = false := by
  cases p <;> decide

theorem recognize_bang (h : c.Between before (Byte.bang :: rest)) :
    c.recognize = c.sign .loneBang (some .bangEq) := by
  have first : c.current = Byte.bang := h.current
  simp only [recognize, first]
  rfl

/-- A sign is recognised unless the byte behind it makes a longer one of it. -/
theorem recognize_sign {p : Punct} (h : c.Between before (Text.bytes p.text ++ rest))
    (stop : p.withEquals? ≠ none → rest.head? ≠ some Byte.equals) :
    c.recognize = (.punct p, c.forward (Text.bytes p.text).length) := by
  obtain ⟨nonzero, blank, hash, notWord, notDigit, notQuote⟩ := leadByte_spec p
  rcases sign_spec p with ⟨rfl, bytes⟩ | ⟨q, found, notBang, ⟨rfl, bytes⟩ | ⟨extends_q, bytes⟩⟩
  · rw [bytes] at h ⊢
    rw [h.recognize_bang, h.sign_extended]
    rfl
  · rw [bytes] at h ⊢
    have first : c.current = p.leadByte := h.current
    simp only [recognize, first, nonzero, Bool.false_and, blank, hash, notWord, notDigit, notQuote, notBang,
      Bool.false_eq_true, if_false, found]
    exact h.sign_alone stop
  · rw [bytes] at h ⊢
    have first : c.current = p.leadByte := h.current
    simp only [recognize, first, nonzero, Bool.false_and, blank, hash, notWord, notDigit, notQuote, notBang,
      Bool.false_eq_true, if_false, found, extends_q]
    exact h.sign_extended

/-!
### Strings
-/

/-- A quote sends the cursor to the strings. -/
theorem recognize_quote {q : Quoting} (h : c.Between before (q.markBytes ++ rest)) :
    c.recognize = c.string := by
  have first : c.current = Byte.quote := by
    rw [h.current]
    cases q <;> rfl
  simp only [recognize, first]
  rfl

/-- Which mark opens a string is told by whether two quotes follow the first. -/
theorem quoting_eq {q : Quoting} (h : c.Between before (q.markBytes ++ rest))
    (apart : q = .single → ¬ [Byte.quote, Byte.quote] <+: rest) : c.quoting = q := by
  rw [quoting, h.peek, h.peekSecond]
  cases q with
  | triple => rfl
  | single =>
      apply if_neg
      intro both
      apply apart rfl
      cases rest with
      | nil => cases both
      | cons x rest =>
          cases rest with
          | nil => simp [Quoting.markBytes, Byte.quote] at both
          | cons y rest =>
              simp only [Quoting.markBytes, List.cons_append, List.nil_append, List.getD_cons_succ,
                List.getD_cons_zero, Bool.and_eq_true, beq_iff_eq] at both
              simp [both]

/-- A string reaches to the first mark behind its content. -/
theorem recognize_string {q : Quoting} {w : List UInt8}
    (h : c.Between before (q.markBytes ++ w ++ q.markBytes ++ rest)) (unclosed : q.closes w = false)
    (last : w.getLast? ≠ some Byte.quote)
    (apart : q = .single → w = [] → rest.head? ≠ some Byte.quote) :
    c.recognize = (.string q, c.forward (q.markBytes ++ w ++ q.markBytes).length) := by
  have there : c.Between before (q.markBytes ++ (w ++ q.markBytes ++ rest)) := by simpa using h
  have quoting : c.quoting = q := by
    apply there.quoting_eq
    rintro rfl ⟨more, both⟩
    cases w with
    | nil =>
        have next : rest = Byte.quote :: more := by simpa [Quoting.markBytes] using both.symm
        exact apart rfl rfl (by rw [next]; rfl)
    | cons x w =>
        obtain rfl : Byte.quote = x := (List.cons.inj both).1
        simp [Quoting.closes, Quoting.markBytes] at unclosed
  rw [there.recognize_quote, Cursor.string, quoting,
    there.forward.skipPast (Quoting.not_prefix_of_unclosed unclosed last)]
  simp [forward_forward]

/-- Without a closing mark the rest of the source is one unterminated string. -/
theorem recognize_unterminated {q : Quoting} {w : List UInt8} (h : c.Between before (q.markBytes ++ w))
    (unclosed : q.closes w = false) :
    c.recognize = (.unterminated q, c.forward (q.markBytes ++ w).length) := by
  have quoting : c.quoting = q := by
    apply h.quoting_eq
    rintro rfl ⟨more, rfl⟩
    simp [Quoting.closes, Quoting.markBytes] at unclosed
  have behind : (c.forward q.markBytes.length).Between (before ++ q.markBytes) w := h.forward
  have absent := behind.distance?_eq_none fun i _ => Quoting.not_prefix_of_closes unclosed (List.drop_suffix i w)
  rw [h.recognize_quote, Cursor.string, quoting, Cursor.skipPast, absent, behind.toEnd]
  simp [forward_forward]

/-!
### Invalid characters
-/

/-- A stray byte begins nothing. -/
theorem isStray_spec {b : UInt8} (stray : Byte.isStray b = true) :
    Byte.isBlank b = false ∧ (b == Byte.hash) = false ∧ Byte.isWordStart b = false ∧
      Byte.isDigit b = false ∧ (b == Byte.quote) = false ∧ (b == Byte.bang) = false ∧
      Punct.ofByte? b = none := by
  simpa [Byte.isStray, and_assoc] using stray

/-- A stray byte stands for a whole character, or for what there is of it at the end. -/
theorem recognize_stray {b : UInt8} {w : List UInt8} (h : c.Between before (b :: w ++ rest))
    (stray : Byte.isStray b = true)
    (width : w.length + 1 = Byte.charWidth b ∨ rest.head? = none ∧ w.length + 1 < Byte.charWidth b) :
    c.recognize = (.invalidChar, c.forward (b :: w).length) := by
  have first : c.current = b := h.current
  obtain ⟨blank, hash, notWord, notDigit, notQuote, notBang, none⟩ := isStray_spec stray
  have notEnd : c.isEnd = false := by rw [h.isEnd]; rfl
  have skipped : c.skipChar = c.forward (b :: w).length := by
    have length : c.buffer.length = before.length + (w.length + 1 + rest.length) := by
      rw [h.holds.length]
      simp
      omega
    rw [skipChar, Cursor.forward, first, h.position, length, List.length_cons]
    congr 1
    rcases width with whole | ⟨ends, part⟩
    · omega
    · rw [List.head?_eq_none_iff.mp ends]
      simp only [List.length_nil]
      omega
  simp only [recognize, first, notEnd, Bool.and_false, blank, hash, notWord, notDigit, notQuote, notBang,
    Bool.false_eq_true, if_false, none, skipped]

end Cursor.Between

/-!
### Shapes
-/

namespace Lexeme.Shape

open Cursor.Between

variable {c : Cursor} {before w rest : List UInt8} {kind : Kind}

/-- A cursor recognises the lexeme that the bytes in front of it begin with. -/
theorem recognize (shape : Shape kind w rest.head?) (h : c.Between before (w ++ rest)) :
    c.recognize = (kind, c.forward w.length) := by
  generalize next : rest.head? = next at shape
  cases shape with
  | finish =>
      obtain rfl := List.head?_eq_none_iff.mp next
      exact h.recognize_end
  | space nonempty blank stop =>
      obtain ⟨b, w, rfl⟩ := List.exists_cons_of_ne_nil nonempty
      exact h.recognize_blank blank (next ▸ stop)
  | comment line stop => exact h.recognize_comment line (next ▸ stop)
  | word start inside stop => exact h.recognize_word start inside (next ▸ stop)
  | number numeral boundary => exact h.recognize_number numeral (next ▸ boundary)
  | malformedNumber start inside stop other =>
      exact h.recognize_malformed start inside (next ▸ stop) (next ▸ other)
  | string unclosed last apart => exact h.recognize_string unclosed last (next ▸ apart)
  | unterminated unclosed =>
      obtain rfl := List.head?_eq_none_iff.mp next
      rw [List.append_nil] at h
      exact h.recognize_unterminated unclosed
  | punct stop => exact h.recognize_sign (next ▸ stop)
  | loneBang stop => rw [recognize_bang h, sign_alone h fun _ => next ▸ stop]; rfl
  | invalidChar stray width => exact h.recognize_stray stray (next ▸ width)

/-- A scan tells the lexeme by its kind and length, and leaves the cursor behind it. -/
theorem scan (shape : Shape kind w rest.head?) (h : c.Between before (w ++ rest)) :
    c.scan = (⟨kind, w.length⟩, c.forward w.length) := by
  simp [Cursor.scan, shape.recognize h, Cursor.forward]

end Lexeme.Shape

end BuildScript
