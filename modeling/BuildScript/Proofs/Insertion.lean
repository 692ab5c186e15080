/-
Module: BuildScript.Proofs.Insertion
Layer: proofs about programs
Purpose: White space and comments can be put anywhere between two lexemes of a source. A lexeme is decided by
  its own bytes and the one behind it, so nothing in front of the new text changes, and neither does what
  is behind it. A comment that ends where the text is put in goes on up to the next line feed, which takes
  no more than a part of the new text.
Main exports: Filler, Text.Separates, Reads, lex_insert
-/
import BuildScript.Program
import BuildScript.Proofs.Lexeme.Tiling
import BuildScript.Proofs.Token.Agreement

namespace BuildScript

/-!
### Texts to put in
-/

/-- White space, continued lines and comments with their line feeds. -/
inductive Filler : List UInt8 → Prop where
  | nil : Filler []
  | blank {b w} (blank : Byte.isBlank b = true) (others : Filler w) : Filler (b :: w)
  | comment {line w} (inside : Byte.newline ∉ line) (others : Filler w) :
      Filler (Byte.hash :: line ++ Byte.newline :: w)

/-- The text keeps apart what stands on either side of it. -/
def Text.Separates (w : String) : Prop :=
  ∃ b filler, Text.bytes w = b :: filler ∧ Byte.isSpace b = true ∧ Filler filler

/-- What is left of filler behind its first line feed is filler. -/
theorem Filler.split {w : List UInt8} (filler : Filler w) : Byte.newline ∉ w ∨
    ∃ line more, w = line ++ Byte.newline :: more ∧ Byte.newline ∉ line ∧ Filler more := by
  induction filler with
  | nil => exact .inl (by simp)
  | @blank b w blank others ih =>
      by_cases first : b = Byte.newline
      · subst first
        exact .inr ⟨[], w, rfl, by simp, others⟩
      · rcases ih with none | ⟨line, more, rfl, inside, filler⟩
        · exact .inl (by simp [none, Ne.symm first])
        · exact .inr ⟨b :: line, more, rfl, by simp [inside, Ne.symm first], filler⟩
  | @comment line w inside others =>
      have other : Byte.newline ≠ Byte.hash := by decide
      exact .inr ⟨Byte.hash :: line, w, rfl, by simp [inside, other], others⟩

/-!
### Reading wherever the bytes stand
-/

/-- What a token means, wherever it stands. -/
def Token.reading (t : Token) : Token.Kind × String :=
  (t.kind, t.text)

/-- The bytes are lexed as tokens with these meanings, wherever in a source they stand at its end. -/
def Reads (bytes : List UInt8) (readings : List (Token.Kind × String)) : Prop :=
  ∀ start, ∃ ts, Lexed start bytes ts ∧ ts.map Token.reading = readings

/-- What tokens mean does not depend on where they start. -/
theorem Lexed.reads {start : Nat} {bytes : List UInt8} {ts : List Token} (lexed : Lexed start bytes ts) :
    Reads bytes (ts.map Token.reading) := by
  intro place
  induction lexed generalizing place with
  | finish => exact ⟨_, .finish, rfl⟩
  | blank blank _ ih =>
      obtain ⟨ts, others, same⟩ := ih (place + 1)
      exact ⟨ts, .blank blank others, same⟩
  | comment line stop _ ih =>
      obtain ⟨ts, others, same⟩ := ih (place + _)
      exact ⟨ts, .comment line stop others, same⟩
  | fault fault shape => exact ⟨_, .fault fault shape, rfl⟩
  | token token shape _ ih =>
      obtain ⟨ts, others, same⟩ := ih (place + _)
      exact ⟨_, .token token shape others, congrArg (List.cons _) same⟩

namespace Reads

variable {w bytes : List UInt8} {readings : List (Token.Kind × String)} {kind : Lexeme.Kind}

theorem blank {b : UInt8} (blank : Byte.isBlank b = true) (reads : Reads bytes readings) :
    Reads (b :: bytes) readings := by
  intro start
  obtain ⟨ts, lexed, same⟩ := reads (start + 1)
  exact ⟨ts, .blank blank lexed, same⟩

theorem blanks (all : ∀ b ∈ w, Byte.isBlank b = true) (reads : Reads bytes readings) :
    Reads (w ++ bytes) readings := by
  intro start
  obtain ⟨ts, lexed, same⟩ := reads (start + w.length)
  exact ⟨ts, .blanks all lexed, same⟩

theorem comment (line : Byte.newline ∉ w) (stop : ∀ b ∈ bytes.head?, b = Byte.newline)
    (reads : Reads bytes readings) : Reads (Byte.hash :: w ++ bytes) readings := by
  intro start
  obtain ⟨ts, lexed, same⟩ := reads (start + (Byte.hash :: w).length)
  exact ⟨ts, .comment line stop lexed, same⟩

/-- A token in front of bytes that are read is read in front of their tokens. -/
theorem token (token : kind.isToken = true) (shape : Lexeme.Shape kind w bytes.head?)
    (reads : Reads bytes readings) :
    Reads (w ++ bytes) ((kind.tokenKind w bytes.head?, Text.ofBytes (kind.content w)) :: readings) := by
  intro start
  obtain ⟨ts, lexed, same⟩ := reads (start + w.length)
  exact ⟨_, .token token shape lexed, congrArg (List.cons _) same⟩

/-- Filler is passed. -/
theorem filler (filler : Filler w) (reads : Reads bytes readings) : Reads (w ++ bytes) readings := by
  induction filler with
  | nil => exact reads
  | blank blank _ ih => exact ih.blank blank
  | @comment line w inside _ ih =>
      have passed := Reads.comment inside (by simp) (ih.blank (b := Byte.newline) rfl)
      simpa using passed

/-- A comment takes what is put in behind it up to a line feed, or all of it. -/
theorem comment_filler {line : List UInt8} (inside : Byte.newline ∉ line)
    (stop : ∀ b ∈ bytes.head?, b = Byte.newline) (filler : Filler w) (reads : Reads bytes readings) :
    Reads (Byte.hash :: line ++ (w ++ bytes)) readings := by
  rcases filler.split with none | ⟨first, more, rfl, none, filler⟩
  · have passed := Reads.comment (w := line ++ w) (by simp [inside, none]) stop reads
    simpa using passed
  · have behind := (reads.filler filler).blank (b := Byte.newline) rfl
    have passed := Reads.comment (w := line ++ first) (by simp [inside, none]) (by simp) behind
    simpa using passed

end Reads

/-!
### Lexemes in front of new text
-/

/-- A token that new text behind it does not change: it is right, and no name that would be a reserved
    word if something else followed it. -/
def Token.Steady (t : Token) : Prop :=
  t.kind ≠ .invalid ∧ (t.kind = .name → isReserved t.text = false)

namespace Lexeme

variable {kind : Kind} {w : List UInt8} {next : Option UInt8} {start : Nat} {b : UInt8}

/-- A steady token is what it would be in front of white space. -/
theorem Kind.tokenKind_before_space (right : kind.isToken = true) (space : Byte.isSpace b = true)
    (steady : (kind.token start w next).Steady) : kind.tokenKind w (some b) = kind.tokenKind w next := by
  cases kind with
  | word =>
      obtain ⟨-, -, boundary, -, -⟩ := Shape.isSpace_spec b space
      obtain ⟨-, unreserved⟩ := steady
      cases reserved : Keyword.ofText? (Text.ofBytes w) with
      | none => simp [Kind.tokenKind, reserved]
      | some keyword =>
          cases ends : Byte.isBoundary next with
          | true => simp [Kind.tokenKind, reserved, boundary, ends]
          | false => simp [Kind.token, Kind.tokenKind, Kind.content, isReserved, reserved, ends] at unreserved
  | number | string | punct => rfl
  | _ => cases right

end Lexeme

/-- The bytes are read the same together and with white space and filler between them. -/
structure Parts (front back : List UInt8) (readings : List (Token.Kind × String)) : Prop where
  together : Reads (front ++ back) readings
  apart {b filler} (space : Byte.isSpace b = true) (filled : Filler filler) :
    Reads (front ++ (b :: filler ++ back)) readings

namespace Parts

variable {w front back : List UInt8} {readings : List (Token.Kind × String)} {kind : Lexeme.Kind}

/-- New text may be put in front of everything. -/
theorem here (reads : Reads back readings) : Parts [] back readings where
  together := reads
  apart space filled :=
    (reads.filler filled).blank (Lexeme.Shape.isSpace_spec _ space).1

theorem blanks (all : ∀ b ∈ w, Byte.isBlank b = true) (parts : Parts front back readings) :
    Parts (w ++ front) back readings where
  together := by
    rw [List.append_assoc]
    exact parts.together.blanks all
  apart space filled := by
    rw [List.append_assoc]
    exact (parts.apart space filled).blanks all

theorem comment (line : Byte.newline ∉ w) (stop : ∀ b ∈ (front ++ back).head?, b = Byte.newline)
    (parts : Parts front back readings) : Parts (Byte.hash :: w ++ front) back readings where
  together := by
    rw [List.append_assoc]
    exact parts.together.comment line stop
  apart {b filler} space filled := by
    cases front with
    | nil =>
        have blank := (Lexeme.Shape.isSpace_spec b space).1
        rw [List.append_nil]
        exact parts.together.comment_filler line stop (.blank blank filled)
    | cons x front =>
        rw [List.append_assoc]
        exact (parts.apart space filled).comment line stop

theorem token {start : Nat} (right : kind.isToken = true) (shape : Lexeme.Shape kind w (front ++ back).head?)
    (steady : (kind.token start w (front ++ back).head?).Steady) (parts : Parts front back readings) :
    Parts (w ++ front) back ((kind.token start w (front ++ back).head?).reading :: readings) where
  together := by
    rw [List.append_assoc]
    exact parts.together.token right shape
  apart {b filler} space filled := by
    rw [List.append_assoc]
    cases front with
    | nil =>
        have before_space := shape.before_space right space
        have same := Lexeme.Kind.tokenKind_before_space right space steady
        rw [Token.reading, Lexeme.Kind.token, ← same]
        exact (parts.apart space filled).token right before_space
    | cons x front => exact (parts.apart space filled).token right shape

end Parts

/-- There is a place behind `n` of the bytes where white space and filler can be put in. -/
def Divides (bytes : List UInt8) (n : Nat) (readings : List (Token.Kind × String)) : Prop :=
  ∃ front back, bytes = front ++ back ∧ front.length = n ∧ Parts front back readings

theorem Divides.append {w bytes : List UInt8} {n : Nat} {readings others : List (Token.Kind × String)}
    (divides : Divides bytes n others)
    (step : ∀ {front back}, bytes = front ++ back → Parts front back others → Parts (w ++ front) back readings) :
    Divides (w ++ bytes) (w.length + n) readings := by
  obtain ⟨front, back, rfl, length, parts⟩ := divides
  exact ⟨w ++ front, back, (List.append_assoc w front back).symm, by rw [List.length_append, length],
    step rfl parts⟩

/-- Between the lexemes of a scan, white space and filler can be put in. -/
theorem Cursor.Scans.divides {c : Cursor} {before bytes : List UInt8} {passed others : List Lexeme}
    (scans : c.Scans (passed ++ others)) (h : c.Between before bytes)
    (steady : ∀ t ∈ c.buffer.tokens before.length (passed ++ others), t.Steady) :
    Divides bytes (Lexeme.total passed)
      ((c.buffer.tokens before.length (passed ++ others)).map Token.reading) := by
  induction passed generalizing c before bytes with
  | nil => exact ⟨[], bytes, rfl, rfl, .here (scans.lexed h).reads⟩
  | cons lexeme passed ih =>
      rw [List.cons_append] at scans steady ⊢
      obtain ⟨kind, w, rest, rfl, shape, other, rfl, more⟩ := scans.exists_shape h
      have behind := ih more h.forward
      rw [List.length_append] at behind
      rw [Lexeme.total]
      rcases shape.cases_of_ne_finish other with ⟨rfl, blank⟩ | ⟨rfl, w, rfl, line, stop⟩ | fault | right
      · rw [Buffer.tokens_trivia rfl] at steady ⊢
        exact (behind steady).append fun _ parts => parts.blanks blank
      · rw [Buffer.tokens_trivia rfl] at steady ⊢
        exact (behind steady).append fun same parts => parts.comment line (same ▸ stop)
      · rw [h.tokens_fault fault shape] at steady
        exact absurd (Lexeme.Kind.tokenKind_of_isFault fault) (steady _ (List.mem_singleton_self _)).1
      · rw [h.tokens_token right shape] at steady ⊢
        obtain ⟨here, steady⟩ := List.forall_mem_cons.mp steady
        apply (behind steady).append
        rintro front back rfl parts
        exact parts.token right shape here

/-!
### Programs
-/

/-- The terminals of a source are told by what its tokens mean. -/
theorem terminals_eq_filterMap (source : String) : terminals source =
    ((lex source).toList.map Token.reading).filterMap
      fun reading => Token.terminal? { kind := reading.1, text := reading.2, span := default } := by
  rw [List.filterMap_map]
  rfl

/-- The grammar reads what the tokens mean. -/
theorem parse_congr {source other : String}
    (same : (lex source).toList.map Token.reading = (lex other).toList.map Token.reading)
    (maxNodes : Option Nat) : parse source maxNodes = parse other maxNodes := by
  rw [parse, parse, terminals_eq_filterMap, terminals_eq_filterMap, same]

/-- In a source that is lexed to its end no token is a fault. -/
theorem ne_invalid_of_mem_lex {source : String}
    (ends : (lex source).toList.getLast?.map Token.kind = some .finish) {t : Token}
    (member : t ∈ (lex source).toList) : t.kind ≠ .invalid := by
  obtain ⟨last, found, finish⟩ := Option.map_eq_some_iff.mp ends
  rw [← List.dropLast_append_getLast? last found] at member
  rcases List.mem_append.mp member with earlier | latest
  · have more := Lexer.isLast_of_mem_dropLast (by simp) t earlier
    rintro invalid
    simp [Token.isLast, invalid] at more
  · rw [List.mem_singleton.mp latest, finish]
    decide

/-- Between any two lexemes of a source that is lexed to its end, the front included, a text of white space
    and comments can be put in: the tokens mean the same, and so does the program. -/
theorem lex_insert (source : String) (ends : (lex source).toList.getLast?.map Token.kind = some .finish)
    (names : ∀ t ∈ (lex source).toList, t.kind = .name → isReserved t.text = false)
    {passed others : List Lexeme} (scans : (Buffer.ofSource source).cursor.Scans (passed ++ others))
    {w : String} (separates : Text.Separates w) :
    ∃ front back, source = front ++ back ∧ (Text.bytes front).length = Lexeme.total passed ∧
      (lex (front ++ w ++ back)).toList.map Token.reading = (lex source).toList.map Token.reading ∧
        ∀ maxNodes, parse (front ++ w ++ back) maxNodes = parse source maxNodes := by
  have h := Cursor.between_ofSource source
  have tokens := lex_eq_of_lexed (scans.lexed h)
  have steady : ∀ t ∈ (lex source).toList, t.Steady := fun t member =>
    ⟨ne_invalid_of_mem_lex ends member, names t member⟩
  rw [tokens] at steady
  obtain ⟨u, v, bytes, length, parts⟩ := scans.divides h steady
  have edge := scans.edge h rfl (Text.edge_zero source)
  rw [List.length_nil, Nat.zero_add] at edge
  obtain ⟨front, back, rfl, place⟩ := Text.edge_iff.mp edge
  rw [Text.bytes_append] at bytes
  obtain ⟨rfl, rfl⟩ := List.append_inj bytes (place.trans length.symm)
  obtain ⟨b, filler, content, space, filled⟩ := separates
  obtain ⟨ts, lexed, same⟩ := parts.apart space filled 0
  rw [← content, ← Text.bytes_append, ← Text.bytes_append, ← String.append_assoc] at lexed
  have readings : (lex (front ++ w ++ back)).toList.map Token.reading =
      (lex (front ++ back)).toList.map Token.reading := by
    rw [lex_eq_of_lexed lexed, tokens, same, List.length_nil]
  exact ⟨front, back, rfl, place, readings, parse_congr readings⟩

/-- Behind a comment at the end of the source, the comment goes on through part of the text. -/
theorem lex_insert_behind_comment :
    (lex "a#c").toList.getLast?.map Token.kind = some .finish ∧
      (∀ t ∈ (lex "a#c").toList, t.kind = .name → isReserved t.text = false) ∧
        (Buffer.ofSource "a#c").cursor.Scans ([⟨.word, 1⟩, ⟨.comment, 2⟩] ++ []) ∧
          Text.Separates " #d\n" ∧
            ∃ front back, "a#c" = front ++ back ∧ (Text.bytes front).length = 3 ∧
              (lex (front ++ " #d\n" ++ back)).toList.map Token.reading =
                  (lex "a#c").toList.map Token.reading ∧
                ∀ maxNodes, parse (front ++ " #d\n" ++ back) maxNodes = parse "a#c" maxNodes := by
  have ends : (lex "a#c").toList.getLast?.map Token.kind = some .finish := by decide +kernel
  have names : ∀ t ∈ (lex "a#c").toList, t.kind = .name → isReserved t.text = false := by decide +kernel
  have h : (Buffer.ofSource "a#c").cursor.Between [] ([97] ++ ([35, 99] ++ [])) :=
    Cursor.between_ofSource "a#c"
  have scans : (Buffer.ofSource "a#c").cursor.Scans ([⟨.word, 1⟩, ⟨.comment, 2⟩] ++ []) := by
    apply h.scans_cons (.word (by decide) (by simp) (by rintro _ ⟨⟩; rfl)) (by decide)
    apply h.forward.scans_cons (.comment (by decide) (by simp)) (by decide)
    exact h.forward.forward.scans_nil
  have comment : Filler (Byte.hash :: [100] ++ Byte.newline :: []) := .comment (by decide) .nil
  have separates : Text.Separates " #d\n" := ⟨32, _, by decide, by decide, comment⟩
  exact ⟨ends, names, scans, separates, lex_insert "a#c" ends names scans separates⟩

end BuildScript
