/-
Module: BuildScript.Proofs.Token.Lossless
Layer: proofs about tokens
Purpose: Lexing loses nothing of a source. Each token begins and ends at an edge of a character and tells the
  bytes that it was read from, no two overlap, and what is left between them is blank space and
  comments.
Main exports: Token.written, Token.Formed, Trivia, Lossless, lex_lossless
-/
import BuildScript.Proofs.Token.Continuous

namespace BuildScript

/-!
### Tokens in their source
-/

/-- The source text that a token was read from. -/
def Token.written (t : Token) : String :=
  match t.kind with
  | .number radix => radix.mark ++ t.text
  | .string q => q.wrap t.text
  | .finish | .invalid | .keyword _ | .name | .punct _ | .increment | .decrement => t.text

/-- The text of a token is one that its kind can have in a source of `length` bytes. -/
def Token.Formed (t : Token) (length : Nat) : Prop :=
  match t.kind with
  | .number radix => t.text ≠ "" ∧ ∀ b ∈ Text.bytes t.text, radix.isDigit b = true
  | .string q => ¬ q.markBytes <:+: Text.bytes t.text ∧ (Text.bytes t.text).getLast? ≠ some Byte.quote
  | .finish => t.text = "" ∧ t.span = { start := length, stop := length }
  | .name => Text.isWord t.text = true
  | .keyword word => t.text = word.text
  | .punct sign => t.text = sign.text
  | .invalid => True
  | .increment | .decrement => False

/-- The bytes of a source from `start` up to `stop`. -/
def Text.slice (source : String) (start stop : Nat) : List UInt8 :=
  ((bytes source).drop start).take (stop - start)

/-- The token is whole characters of the source, and they can be told from it. -/
structure Token.Stands (source : String) (t : Token) : Prop where
  forward : t.span.start ≤ t.span.stop
  inside : t.span.stop ≤ (Text.bytes source).length
  start : Text.Edge source t.span.start
  stop : Text.Edge source t.span.stop
  rebuilt : Text.bytes t.written = Text.slice source t.span.start t.span.stop
  formed : t.Formed (Text.bytes source).length

/-- The bytes `gap` in front of `rest` are blanks and comments, and each comment ends in front of a line
    feed or with the source. -/
inductive Trivia : (gap rest : List UInt8) → Prop where
  | nil {rest} : Trivia [] rest
  | blank {b gap rest} (blank : Byte.isBlank b = true) (others : Trivia gap rest) : Trivia (b :: gap) rest
  | comment {w gap rest} (line : Byte.newline ∉ w) (stop : ∀ b ∈ (gap ++ rest).head?, b = Byte.newline)
      (others : Trivia gap rest) : Trivia (Byte.hash :: w ++ gap) rest

/-- Between `start` and the first token, and between each token and the next, there is only trivia. -/
def Spaced (source : String) : (start : Nat) → List Token → Prop
  | _, [] => True
  | start, t :: ts =>
      start ≤ t.span.start ∧
        Trivia (Text.slice source start t.span.start) ((Text.bytes source).drop t.span.start) ∧
          Spaced source t.span.stop ts

/-- The tokens tell what the source is from `start` on, as far as it has been read. -/
structure Lossless (source : String) (start : Nat) (ts : List Token) : Prop where
  stands : ∀ t ∈ ts, t.Stands source
  ordered : ts.Pairwise fun t u => t.span.stop ≤ u.span.start
  spaced : Spaced source start ts
  /-- The last token, and no other, is the end of the source or a fault. -/
  ends : ∃ front last, ts = front ++ [last] ∧ last.isLast = true ∧ ∀ t ∈ front, t.isLast = false

/-!
### Slices
-/

namespace Text

variable {source : String} {before w rest : List UInt8}

/-- Between two positions of a source stand the bytes in between. -/
theorem slice_eq (content : bytes source = before ++ (w ++ rest)) :
    slice source before.length (before.length + w.length) = w := by
  rw [slice, content, List.drop_left, Nat.add_sub_cancel_left, List.take_left]

theorem slice_self (source : String) (i : Nat) : slice source i i = [] := by
  rw [slice, Nat.sub_self, List.take_zero]

/-- A slice that begins with a lexeme goes on with the slice behind it. -/
theorem slice_append (content : bytes source = before ++ (w ++ rest)) {stop : Nat}
    (behind : before.length + w.length ≤ stop) :
    slice source before.length stop = w ++ slice source (before.length + w.length) stop := by
  have length : stop - before.length = w.length + (stop - (before.length + w.length)) := by omega
  rw [slice, slice, content, List.drop_left, length, List.take_length_add_append, ← List.append_assoc,
    ← List.length_append, List.drop_left]

/-- A slice and all that is behind it. -/
theorem slice_append_drop (source : String) {start stop : Nat} (forward : start ≤ stop) :
    slice source start stop ++ (bytes source).drop stop = (bytes source).drop start := by
  have behind : (bytes source).drop stop = ((bytes source).drop start).drop (stop - start) := by
    rw [List.drop_drop, Nat.add_sub_cancel' forward]
  rw [slice, behind, List.take_append_drop]

end Text

/-!
### Lists of tokens
-/

/-- No token starts before the first one may. -/
theorem Spaced.behind {source : String} {start : Nat} {ts : List Token} (spaced : Spaced source start ts)
    (stands : ∀ t ∈ ts, t.Stands source) : ∀ t ∈ ts, start ≤ t.span.start := by
  induction ts generalizing start with
  | nil => simp
  | cons t ts ih =>
      obtain ⟨here, others⟩ := List.forall_mem_cons.mp stands
      obtain ⟨first, -, spaced⟩ := spaced
      refine List.forall_mem_cons.mpr ⟨first, fun u member => ?_⟩
      exact first.trans (here.forward.trans (ih spaced others u member))

namespace Lossless

variable {source : String} {t : Token} {ts : List Token}

/-- The last token is a list of tokens by itself. -/
theorem single (here : t.Stands source) (last : t.isLast = true) :
    Lossless source t.span.start [t] where
  stands := by simpa using here
  ordered := List.pairwise_singleton _ _
  spaced := ⟨Nat.le_refl _, Text.slice_self source _ ▸ .nil, trivial⟩
  ends := ⟨[], t, rfl, last, by simp⟩

/-- A token may be put in front of those that start where it stops or later. -/
theorem cons (here : t.Stands source) (other : t.isLast = false)
    (others : Lossless source t.span.stop ts) : Lossless source t.span.start (t :: ts) where
  stands := List.forall_mem_cons.mpr ⟨here, others.stands⟩
  ordered := List.pairwise_cons.mpr ⟨others.spaced.behind others.stands, others.ordered⟩
  spaced := ⟨Nat.le_refl _, Text.slice_self source _ ▸ .nil, others.spaced⟩
  ends := by
    obtain ⟨front, last, rfl, ends, before⟩ := others.ends
    exact ⟨t :: front, last, rfl, ends, List.forall_mem_cons.mpr ⟨other, before⟩⟩

/-- Bytes in front of the tokens are passed if they make the trivia behind them longer. -/
theorem pass {before w rest : List UInt8} (content : Text.bytes source = before ++ (w ++ rest))
    (longer : ∀ gap more, gap ++ more = rest → Trivia gap more → Trivia (w ++ gap) more)
    (others : Lossless source (before.length + w.length) ts) : Lossless source before.length ts where
  stands := others.stands
  ordered := others.ordered
  spaced := by
    cases ts with
    | nil => trivial
    | cons t ts =>
        obtain ⟨first, gap, spaced⟩ := others.spaced
        have behind : (Text.bytes source).drop (before.length + w.length) = rest := by
          rw [content, ← List.append_assoc, ← List.length_append, List.drop_left]
        have whole := Text.slice_append_drop source first
        refine ⟨(Nat.le_add_right _ _).trans first, ?_, spaced⟩
        rw [Text.slice_append content first]
        exact longer _ _ (whole.trans behind) gap
  ends := others.ends

end Lossless

/-!
### Edges of lexemes
-/

/-- Blanks are ASCII. -/
theorem Byte.isBlank_ascii : ∀ b : UInt8, isBlank b = true → b < 128 := by
  grind [isBlank, isSpace]

/-- The marks of number systems are ASCII. -/
theorem Radix.mark_ascii (radix : Radix) : ∀ b ∈ Text.bytes radix.mark, b < 128 := by
  cases radix <;> decide +kernel

/-- Numerals are ASCII. -/
theorem Radix.Numeral.ascii {radix : Radix} {w : List UInt8} (numeral : radix.Numeral w) :
    ∀ b ∈ w, b < 128 := by
  obtain ⟨digits, rfl, -, digit⟩ := numeral
  refine List.forall_mem_append.mpr ⟨radix.mark_ascii, fun b member => ?_⟩
  exact Byte.isWordByte_lt b (Byte.isWordByte_of_isDigit radix b (digit b member))

/-- Quotes are ASCII. -/
theorem Quoting.markBytes_ascii (q : Quoting) : ∀ b ∈ q.markBytes, b < 128 := by
  cases q <;> simp [markBytes, Byte.quote]

namespace Text

variable {source : String} {before w rest : List UInt8}

/-- There is an edge behind bytes that end in an ASCII byte. -/
theorem edge_behind (content : bytes source = before ++ (w ++ rest)) (edge : Edge source before.length)
    (ascii : ∀ b ∈ w.getLast?, b < 128) : Edge source (before.length + w.length) := by
  rcases List.eq_nil_or_concat w with rfl | ⟨w, b, rfl⟩
  · exact edge
  · have last : bytes source = (before ++ w) ++ b :: rest := by simp [content]
    have behind := edge_behind_ascii last (ascii b (by simp))
    simpa [Nat.add_assoc] using behind

/-- Behind ASCII there is an edge of a character. -/
theorem edge_behind_all (content : bytes source = before ++ (w ++ rest)) (edge : Edge source before.length)
    (ascii : ∀ b ∈ w, b < 128) : Edge source (before.length + w.length) :=
  edge_behind content edge fun b last => ascii b (List.mem_of_getLast? last)

/-- There is an edge in front of an ASCII byte and at the end. -/
theorem edge_before (content : bytes source = before ++ (w ++ rest)) (ascii : ∀ b ∈ rest.head?, b < 128) :
    Edge source (before.length + w.length) := by
  rw [← List.append_assoc] at content
  rw [← List.length_append]
  cases rest with
  | nil =>
      rw [List.append_nil] at content
      exact content ▸ edge_end source
  | cons b rest => exact edge_of_ascii content (ascii b rfl)

end Text

namespace Lexeme.Shape

variable {source : String} {kind : Kind} {before w rest : List UInt8}

/-- A lexeme ends at an edge if it begins at one. -/
theorem edge_behind (shape : Shape kind w rest.head?) (content : Text.bytes source = before ++ (w ++ rest))
    (edge : Text.Edge source before.length) : Text.Edge source (before.length + w.length) := by
  generalize following : rest.head? = next at shape
  cases shape with
  | finish => exact edge
  | space _ blank =>
      exact Text.edge_behind_all content edge fun b member => Byte.isBlank_ascii b (blank b member)
  | comment _ stop =>
      apply Text.edge_before content
      intro b first
      rw [following] at first
      rw [stop b first]
      decide
  | @word b w _ start inside =>
      have all : ∀ x ∈ b :: w, Byte.isWordByte x = true :=
        List.forall_mem_cons.mpr ⟨(Byte.isWordStart_spec _ start).1, inside⟩
      exact Text.edge_behind_all content edge fun x member => Byte.isWordByte_lt x (all x member)
  | @malformedNumber b w _ start inside =>
      have all : ∀ x ∈ b :: w, Byte.isWordByte x = true :=
        List.forall_mem_cons.mpr ⟨(Byte.isDigit_spec _ start).1, inside⟩
      exact Text.edge_behind_all content edge fun x member => Byte.isWordByte_lt x (all x member)
  | number numeral => exact Text.edge_behind_all content edge numeral.ascii
  | @string q =>
      apply Text.edge_behind content edge
      rw [List.getLast?_append]
      cases q <;> simp [Quoting.markBytes, Byte.quote]
  | unterminated => exact Text.edge_before content (by simp [following])
  | @punct p =>
      apply Text.edge_behind content edge
      cases p <;> decide +kernel
  | loneBang => exact Text.edge_behind content edge (by simp [Byte.bang])
  | @invalidChar b w _ _ width =>
      rcases width with whole | ⟨rfl, -⟩
      · rw [List.length_cons, whole]
        exact Text.edge_behind_char content edge
      · exact Text.edge_before content (by simp [following])

/-- The content of a token is whole characters. -/
theorem bytes_content (shape : Shape kind w rest.head?) (content : Text.bytes source = before ++ (w ++ rest))
    (edge : Text.Edge source before.length) : Text.bytes (Text.ofBytes (kind.content w)) = kind.content w := by
  have behind := shape.edge_behind content edge
  have whole : Text.bytes (Text.ofBytes w) = w := Text.bytes_ofBytes content edge behind
  generalize rest.head? = next at shape
  cases shape with
  | @number radix _ _ numeral =>
      obtain ⟨digits, rfl, -, -⟩ := numeral
      have inside : Text.bytes source = (before ++ Text.bytes radix.mark) ++ (digits ++ rest) := by
        simp [content]
      have front := Text.edge_behind_all (by rw [content, List.append_assoc]) edge radix.mark_ascii
      rw [Kind.content_number]
      rw [← List.length_append] at front
      apply Text.bytes_ofBytes inside front
      simpa [Nat.add_assoc] using behind
  | @string q w =>
      have inside : Text.bytes source = (before ++ q.markBytes) ++ (w ++ (q.markBytes ++ rest)) := by
        simp [content]
      have front := Text.edge_behind_all (by rw [content, List.append_assoc, List.append_assoc]) edge
        q.markBytes_ascii
      rw [Kind.content_string]
      rw [← List.length_append] at front
      apply Text.bytes_ofBytes inside front
      apply Text.edge_before inside
      cases q <;> simp [Quoting.markBytes, Byte.quote]
  | _ => exact whole

/-- A lexeme can be told from its token. -/
theorem bytes_written (shape : Shape kind w rest.head?) (content : Text.bytes source = before ++ (w ++ rest))
    (edge : Text.Edge source before.length) :
    Text.bytes (kind.token before.length w rest.head?).written = w := by
  have inner := shape.bytes_content content edge
  generalize rest.head? = next at shape
  cases shape with
  | @word b w =>
      rcases Kind.tokenKind_word (b :: w) next with name | ⟨keyword, reserved⟩
      · simp only [Token.written, Kind.token, name]
        exact inner
      · simp only [Token.written, Kind.token, reserved]
        exact inner
  | @number radix _ _ numeral =>
      obtain ⟨digits, rfl, -, -⟩ := numeral
      simp only [Token.written, Kind.token, Kind.tokenKind]
      rw [Text.bytes_append, inner, Kind.content_number]
  | @string q w =>
      simp only [Token.written, Kind.token, Kind.tokenKind]
      rw [Quoting.bytes_wrap, inner, Kind.content_string]
  | _ => exact inner

/-- What has been read as a lexeme makes a well-formed token. -/
theorem formed (shape : Shape kind w rest.head?) (content : Text.bytes source = before ++ (w ++ rest))
    (edge : Text.Edge source before.length) :
    (kind.token before.length w rest.head?).Formed (Text.bytes source).length := by
  have inner := shape.bytes_content content edge
  generalize following : rest.head? = next at shape
  cases shape with
  | finish =>
      obtain rfl := List.head?_eq_none_iff.mp following
      exact ⟨rfl, by simp [content, Kind.token]⟩
  | @word b w _ start inside =>
      rcases Kind.tokenKind_word (b :: w) next with name | ⟨keyword, reserved⟩
      · simp only [Token.Formed, Kind.token, name]
        exact Text.isWord_of_bytes inner start inside
      · simp only [Token.Formed, Kind.token, reserved]
        exact (Kind.text_of_tokenKind_word reserved).symm
  | @number radix _ _ numeral =>
      obtain ⟨digits, rfl, nonempty, digit⟩ := numeral
      rw [Kind.content_number] at inner
      simp only [Token.Formed, Kind.token, Kind.tokenKind, Kind.content_number, inner]
      refine ⟨fun empty => nonempty ?_, digit⟩
      rw [← inner, empty, Text.bytes_empty]
  | @string q w _ unclosed last =>
      rw [Kind.content_string] at inner
      simp only [Token.Formed, Kind.token, Kind.tokenKind, Kind.content_string, inner]
      refine ⟨fun mark => ?_, last⟩
      obtain ⟨part, front, back⟩ := List.infix_iff_prefix_suffix.mp mark
      exact Quoting.not_prefix_of_closes unclosed back front
  | punct => exact Text.ofBytes_bytes _
  | _ => trivial

/-- The token of a lexeme stands in the source where the lexeme does. -/
theorem stands (shape : Shape kind w rest.head?) (content : Text.bytes source = before ++ (w ++ rest))
    (edge : Text.Edge source before.length) : (kind.token before.length w rest.head?).Stands source where
  forward := Nat.le_add_right _ _
  inside := by simp [content, Kind.token]
  start := edge
  stop := shape.edge_behind content edge
  rebuilt := (shape.bytes_written content edge).trans (Text.slice_eq content).symm
  formed := shape.formed content edge

end Lexeme.Shape

/-!
### Sources
-/

/-- Tokens that are read from an edge on lose nothing of what is behind it. -/
theorem Lexed.lossless {source : String} {start : Nat} {before bytes : List UInt8} {ts : List Token}
    (lexed : Lexed start bytes ts) (place : before.length = start)
    (content : Text.bytes source = before ++ bytes) (edge : Text.Edge source start) :
    Lossless source start ts := by
  induction lexed generalizing before with
  | finish =>
      subst place
      have shape : Lexeme.Shape .finish [] ([] : List UInt8).head? := .finish
      exact .single (shape.stands content edge) rfl
  | @blank start b bytes ts blank others ih =>
      subst place
      have ascii := Byte.isBlank_ascii b blank
      apply Lossless.pass (w := [b]) content fun gap more _ trivia => .blank blank trivia
      have behind : Text.bytes source = (before ++ [b]) ++ bytes := by simp [content]
      exact ih List.length_append behind (Text.edge_behind_ascii content ascii)
  | comment line stop others ih =>
      subst place
      apply Lossless.pass content fun gap more same trivia => .comment line (same ▸ stop) trivia
      apply ih List.length_append (by rw [content, List.append_assoc])
      exact (Lexeme.Shape.comment line stop).edge_behind content edge
  | fault fault shape =>
      subst place
      exact .single (shape.stands content edge) (Lexeme.Kind.isLast_token_of_isFault fault)
  | token token shape others ih =>
      subst place
      apply Lossless.cons (shape.stands content edge) (Lexeme.Kind.isLast_token_of_isToken token)
      apply ih List.length_append (by rw [content, List.append_assoc])
      exact shape.edge_behind content edge

/-- All tokens of a source are well-formed. -/
theorem Token.formed_of_mem_lex {source : String} {t : Token} (member : t ∈ (lex source).toList) :
    t.Formed (Text.bytes source).length :=
  (((lexed_lex source).lossless List.length_nil rfl (Text.edge_zero source)).stands t member).formed

/-- Everything in a source is in one of its tokens or is trivia between them. -/
theorem lex_lossless (source : String) : Lossless source 0 (lex source).toList :=
  (lexed_lex source).lossless List.length_nil rfl (Text.edge_zero source)

end BuildScript
