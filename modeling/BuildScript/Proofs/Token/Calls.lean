/-
Module: BuildScript.Proofs.Token.Calls
Layer: proofs about tokens
Purpose: A lexer under calls in any order. Tokens can be drawn, iterated over, and asked for the fault that
  ended the reading, and each way leaves its trace in the state that the others find. Whatever the order,
  the tokens come in the order of the source and the last one comes again and again; iteration ends once;
  and the fault is told as soon as its token has been drawn.
Main exports: Lexer.Call, Lexer.Event, Lexer.history, Event.Follows, history_conforms
-/
import BuildScript.Proofs.Lexeme.Tiling
import BuildScript.Proofs.Token.Agreement

namespace BuildScript

/-!
### Calls
-/

namespace Lexer

/-- What a lexer can be asked for: the next token, the next item of its iteration, or its fault. -/
inductive Call where
  | draw
  | next
  | fault
deriving DecidableEq, Repr

/-- What a lexer answers. -/
inductive Answer where
  | token (t : Token)
  | item (t? : Option Token)
  | fault (found? : Option Fault)
deriving DecidableEq, Repr

/-- The answer to a call, and the lexer behind it. -/
def answer (lexer : Lexer) : Call → Answer × Lexer
  | .draw =>
      let (t, after) := lexer.draw
      (.token t, after)
  | .next =>
      let (t?, after) := lexer.next?
      (.item t?, after)
  | .fault => (.fault lexer.fault?, lexer)

/-- The token that is drawn in the course of a call. An iteration that is finished draws none. -/
def drawn? (lexer : Lexer) : Call → Option Token
  | .draw => some lexer.draw.1
  | .next => if lexer.finished then none else some lexer.draw.1
  | .fault => none

/-- A call, the token that was drawn in its course, and its answer. -/
structure Event where
  call : Call
  drawn? : Option Token
  answer : Answer
deriving DecidableEq, Repr

/-- What comes of a call. -/
def event (lexer : Lexer) (call : Call) : Event :=
  ⟨call, lexer.drawn? call, (lexer.answer call).1⟩

/-- What comes of calls, one after another. -/
def history : Lexer → List Call → List Event
  | _, [] => []
  | lexer, call :: calls => lexer.event call :: (lexer.answer call).2.history calls

/-- The lexer behind `n` tokens. -/
def behind : (n : Nat) → Lexer → Lexer
  | 0, lexer => lexer
  | n + 1, lexer => lexer.draw.2.behind n

theorem behind_succ (lexer : Lexer) (n : Nat) : lexer.behind (n + 1) = (lexer.behind n).draw.2 := by
  induction n generalizing lexer with
  | zero => rfl
  | succ n ih => exact ih lexer.draw.2

/-- The tokens that were drawn in the course of the events. -/
def drawn (events : List Event) : List Token :=
  events.filterMap Event.drawn?

/-- Iteration has drawn the last token. -/
def Latched (events : List Event) : Prop :=
  ∃ e ∈ events, e.call = .next ∧ ∃ t, e.drawn? = some t ∧ t.isLast = true

end Lexer

/-- The token at place `i` of a source. Behind the last token the last one comes again. -/
def lexAt? (source : String) (i : Nat) : Option Token :=
  (lex source)[min i ((lex source).size - 1)]?

/-- The kind of the lexemes that have the defect. -/
def Defect.kind : Defect → Lexeme.Kind
  | .unterminated quoting => .unterminated quoting
  | .malformedNumber => .malformedNumber
  | .loneBang => .loneBang
  | .invalidCharacter _ => .invalidChar

/-- The fault is that of the faulty token: it is found where the token stands, the source there has the
    defect, and an invalid character is the whole of the token. -/
structure Fault.Explains (source : String) (f : Fault) (t : Token) : Prop where
  place : f.span = t.span
  shape : Lexeme.Shape f.defect.kind (Text.slice source t.span.start t.span.stop)
    ((Text.bytes source).drop t.span.stop).head?
  character : ∀ c, f.defect = .invalidCharacter c → t.text = String.singleton c

namespace Lexer

/-- What comes of a call behind earlier events. -/
inductive Event.Follows (source : String) (before : List Event) : Event → Prop where
  | draw {t} (place : lexAt? source (drawn before).length = some t) :
      Follows source before ⟨.draw, some t, .token t⟩
  | item {t} (going : ¬ Latched before) (place : lexAt? source (drawn before).length = some t)
      (other : t.kind ≠ .finish) : Follows source before ⟨.next, some t, .item (some t)⟩
  | finish {t} (going : ¬ Latched before) (place : lexAt? source (drawn before).length = some t)
      (ends : t.kind = .finish) : Follows source before ⟨.next, some t, .item none⟩
  | latched (latched : Latched before) : Follows source before ⟨.next, none, .item none⟩
  /-- The fault is that of the source, whichever calls there were. -/
  | fault {t f} (member : t ∈ drawn before) (invalid : t.kind = .invalid)
      (found : (Lexer.run source).2.fault? = some f) (explains : f.Explains source t) :
      Follows source before ⟨.fault, none, .fault (some f)⟩
  | faultless (right : ∀ t ∈ drawn before, t.kind ≠ .invalid) :
      Follows source before ⟨.fault, none, .fault none⟩

/-- The event is a faulty token that iteration yields. -/
def Event.YieldsFault (e : Event) : Prop :=
  ∃ t, e.call = .next ∧ e.answer = .item (some t) ∧ t.kind = .invalid

/-- Each of the events follows from those before it. -/
structure Conforms (source : String) (events : List Event) : Prop where
  follows : ∀ i (e : Event), events[i]? = some e → e.Follows source (events.take i)
  /-- Behind the last token every call that draws one draws the last one. -/
  stays : ∀ i (e : Event), events[i]? = some e → ∀ t ∈ drawn (events.take i), t.isLast = true →
    ∀ u, e.drawn? = some u → u = t
  once : events.Pairwise fun e e' => ¬ (e.YieldsFault ∧ e'.YieldsFault)

end Lexer

/-!
### Faulty tokens
-/

theorem Lexeme.Kind.content_of_isFault {kind : Kind} {w : List UInt8} (fault : kind.isFault = true) :
    kind.content w = w := by
  cases kind <;> first | rfl | cases fault

/-- The first of the characters that an invalid one consists of is the whole of it. -/
theorem Cursor.Between.firstChar_eq {c : Cursor} {before rest : List UInt8} {found : Char}
    (h : c.Between before (Text.bytes (String.singleton found) ++ rest)) :
    c.buffer.firstChar c.position (c.position + (Text.bytes (String.singleton found)).length) = found := by
  rw [Buffer.firstChar, h.text, String.toList_singleton]
  rfl

/-- A faulty lexeme is a fault, and its token is the one that the fault stands for. -/
theorem Cursor.Between.fault?_eq {source : String} {c : Cursor} {before w rest : List UInt8}
    {kind : Lexeme.Kind} (h : c.Between before (w ++ rest)) (fault : kind.isFault = true)
    (shape : Lexeme.Shape kind w rest.head?) (content : Text.bytes source = before ++ (w ++ rest))
    (edge : Text.Edge source before.length) :
    ∃ f, c.buffer.fault? c.position ⟨kind, w.length⟩ = some f ∧
      c.buffer.faultToken f = kind.token before.length w rest.head? ∧
        f.Explains source (kind.token before.length w rest.head?) := by
  have text : c.buffer.text c.position (c.position + w.length) = Text.ofBytes w := by
    simpa using h.text_slice 0 (Nat.le_refl w.length)
  have behind : (Text.bytes source).drop (before.length + w.length) = rest := by
    rw [content, ← List.append_assoc, ← List.length_append, List.drop_left]
  -- Whatever the defect is, its fault stands where the token does and has its text.
  have told (defect : Defect) (same : defect.kind = kind)
      (found : c.buffer.defect? c.position (c.position + w.length) kind = some defect)
      (character : ∀ c, defect = .invalidCharacter c → Text.ofBytes w = String.singleton c) :
      ∃ f, c.buffer.fault? c.position ⟨kind, w.length⟩ = some f ∧
        c.buffer.faultToken f = kind.token before.length w rest.head? ∧
          f.Explains source (kind.token before.length w rest.head?) := by
    refine ⟨⟨defect, c.position, c.position + w.length⟩, ?_, ?_, ?_, ?_, ?_⟩
    · rw [Buffer.fault?, found]
      rfl
    · rw [Buffer.faultToken, text, Lexeme.Kind.token, Lexeme.Kind.tokenKind_of_isFault fault,
        Lexeme.Kind.content_of_isFault fault, h.position]
    · rw [Lexeme.Kind.token, h.position]
    · subst same
      simpa [Lexeme.Kind.token, Text.slice_eq content, behind] using shape
    · intro c invalid
      rw [Lexeme.Kind.token, Lexeme.Kind.content_of_isFault fault]
      exact character c invalid
  cases kind with
  | invalidChar =>
      obtain ⟨found, rfl⟩ := shape.eq_singleton content edge
      refine told (.invalidCharacter found) rfl ?_ ?_
      · rw [Buffer.defect?, h.firstChar_eq]
      · rintro c ⟨⟩
        exact Text.ofBytes_bytes _
  | unterminated q => exact told (.unterminated q) rfl rfl (by simp)
  | malformedNumber => exact told .malformedNumber rfl rfl (by simp)
  | loneBang => exact told .loneBang rfl rfl (by simp)
  | _ => cases fault

/-!
### One token after another
-/

namespace Lexer

/-- The lexer draws the tokens one after another, then the last one forever. -/
inductive Draws (source : String) : Lexer → List Token → Prop where
  | last {lexer t after} (flawless : lexer.fault? = none) (drawn : lexer.draw = (t, after))
      (last : t.isLast = true) (stays : after.draw = (t, after))
      (faultless : after.fault? = none → t.kind = .finish)
      (fault : ∀ f, after.fault? = some f → t.kind = .invalid ∧ f.Explains source t) :
      Draws source lexer [t]
  | more {lexer t after ts} (flawless : lexer.fault? = none) (drawn : lexer.draw = (t, after))
      (other : t.isLast = false) (others : Draws source after ts) : Draws source lexer (t :: ts)

variable {source : String} {lexer other : Lexer} {ts : List Token}

theorem Draws.congr (draws : Draws source other ts) (same : other.draw = lexer.draw)
    (flawless : lexer.fault? = none) : Draws source lexer ts := by
  cases draws with
  | last _ drawn last stays faultless fault =>
      exact .last flawless (same ▸ drawn) last stays faultless fault
  | more _ drawn other others => exact .more flawless (same ▸ drawn) other others

/-- What the bytes in front of a lexer are lexed as is what it draws. -/
theorem Between.draws {start : Nat} {before bytes : List UInt8} (lexed : Lexed start bytes ts)
    (h : lexer.Between before bytes) (place : before.length = start)
    (content : Text.bytes source = before ++ bytes) (edge : Text.Edge source before.length) :
    Draws source lexer ts := by
  induction lexed generalizing lexer before with
  | finish =>
      subst place
      have shape : Lexeme.Shape .finish [] ([] : List UInt8).head? := .finish
      have drawn := Between.draw_shape (w := []) h shape rfl
      rw [List.append_nil] at drawn
      refine .last h.flawless drawn rfl ?_ (fun _ => rfl) (by rintro f ⟨⟩)
      have there : Lexer.Between { lexer with position := before.length, fault? := none } before [] := by
        refine ⟨?_, rfl⟩
        have cursor := h.cursor.cursorFrom_eq
        rw [h.cursor.position] at cursor
        exact cursor ▸ h.cursor
      have again := Between.draw_shape (w := []) there shape rfl
      rw [List.append_nil] at again
      exact again
  | @blank start b bytes ts blank others ih =>
      subst place
      have there : lexer.Between before ([b] ++ bytes) := h
      refine (ih there.moved (by simp) (by simp [content]) ?_).congr (there.draw_blank blank) h.flawless
      rw [List.length_append]
      exact Text.edge_behind_ascii content (Byte.isBlank_ascii b blank)
  | @comment start w bytes ts line stop others ih =>
      subst place
      refine (ih h.moved (by simp) (by simp [content]) ?_).congr (h.draw_comment line stop) h.flawless
      rw [List.length_append]
      exact (Lexeme.Shape.comment line stop).edge_behind content edge
  | @fault start kind w bytes fault shape =>
      subst place
      have drawn := h.draw_shape shape (Lexeme.Kind.isTrivia_of_isFault fault)
      obtain ⟨f, found, token, explains⟩ := h.cursor.fault?_eq fault shape content edge
      rw [h.cursor.position] at found
      replace found : lexer.buffer.fault? before.length ⟨kind, w.length⟩ = some f := found
      rw [found] at drawn
      refine .last h.flawless drawn (Lexeme.Kind.isLast_token_of_isFault fault) ?_ (by rintro ⟨⟩) ?_
      · rw [draw]
        exact congrArg (·, _) token
      · rintro _ ⟨⟩
        exact ⟨Lexeme.Kind.tokenKind_of_isFault fault, explains⟩
  | @token start kind w bytes ts right shape others ih =>
      subst place
      refine .more h.flawless (h.draw_token shape right) (Lexeme.Kind.isLast_token_of_isToken right) ?_
      refine ih h.moved (by simp) (by simp [content]) ?_
      rw [List.length_append]
      exact shape.edge_behind content edge

namespace Draws

theorem ne_nil (draws : Draws source lexer ts) : ts ≠ [] := by
  cases draws <;> simp

/-- No token in front of the last one is the end or a fault. -/
theorem isLast_of_getElem? (draws : Draws source lexer ts) {i : Nat} {t : Token} (place : ts[i]? = some t)
    (last : t.isLast = true) : i = ts.length - 1 := by
  induction draws generalizing i with
  | last =>
      obtain ⟨inside, -⟩ := List.getElem?_eq_some_iff.mp place
      exact Nat.lt_one_iff.mp inside
  | @more _ u _ ts _ _ other others ih =>
      cases i with
      | zero =>
          obtain rfl : u = t := by simpa using place
          simp [other] at last
      | succ i =>
          have nonempty := List.length_pos_iff.mpr others.ne_nil
          rw [List.getElem?_cons_succ] at place
          rw [ih place, List.length_cons]
          omega

/-- What is drawn behind `n` tokens. -/
theorem draw_behind (draws : Draws source lexer ts) (n : Nat) :
    ts[min n (ts.length - 1)]? = some (lexer.behind n).draw.1 := by
  induction draws generalizing n with
  | @last lexer t after _ drawn _ stays =>
      have same (m : Nat) : (after.behind m).draw = (t, after) := by
        induction m with
        | zero => exact stays
        | succ m ih => rw [behind_succ, ih, stays]
      cases n with
      | zero => simp [behind, drawn]
      | succ n => simp [behind, drawn, same]
  | @more lexer t after ts _ drawn _ others ih =>
      have nonempty := List.length_pos_iff.mpr others.ne_nil
      cases n with
      | zero => simp [behind, drawn]
      | succ n =>
          have inside : min (n + 1) ((t :: ts).length - 1) = min n (ts.length - 1) + 1 := by
            rw [List.length_cons]
            omega
          rw [inside, List.getElem?_cons_succ, ih n, behind, drawn]

/-- There is no fault before the last token has been drawn, and no other behind it. -/
theorem fault?_behind (draws : Draws source lexer ts) (n : Nat) :
    (lexer.behind n).fault? = if n < ts.length then none else (lexer.behind ts.length).fault? := by
  induction draws generalizing n with
  | @last lexer t after flawless drawn _ stays =>
      have same (m : Nat) : after.behind m = after := by
        induction m with
        | zero => rfl
        | succ m ih => rw [behind_succ, ih, stays]
      cases n with
      | zero => exact flawless
      | succ n => simp [behind, drawn, same]
  | @more lexer t after ts flawless drawn _ others ih =>
      cases n with
      | zero => exact flawless
      | succ n => simp [behind, drawn, ih n]

/-- The fault that is left in the end is that of the last token. -/
theorem fault (draws : Draws source lexer ts) : ∃ t, ts[ts.length - 1]? = some t ∧
    ((lexer.behind ts.length).fault? = none → t.kind = .finish) ∧
      ∀ f, (lexer.behind ts.length).fault? = some f → t.kind = .invalid ∧ f.Explains source t := by
  induction draws with
  | @last lexer t after _ drawn _ _ faultless fault =>
      have ends : lexer.behind 1 = after := congrArg Prod.snd drawn
      exact ⟨t, rfl, ends ▸ faultless, ends ▸ fault⟩
  | @more lexer t after ts _ drawn _ others ih =>
      obtain ⟨u, place, ih⟩ := ih
      have nonempty := List.length_pos_iff.mpr others.ne_nil
      refine ⟨u, ?_, ?_⟩
      · rw [List.length_cons, Nat.add_sub_cancel, ← Nat.sub_add_cancel nonempty]
        exact place
      · rw [List.length_cons, behind, drawn]
        exact ih

end Draws

/-- The lexer that a source has been read by has drawn each token once. -/
theorem drain_behind (lexer : Lexer) (steps : Nat) (drawn : Array Token) :
    ∃ n, (lexer.drain steps drawn).1.size = drawn.size + n ∧
      (lexer.drain steps drawn).2 = lexer.behind n := by
  induction steps generalizing lexer drawn with
  | zero => exact ⟨0, rfl, rfl⟩
  | succ steps ih =>
      rw [drain]
      cases last : lexer.draw.1.isLast with
      | true => exact ⟨1, by simp [last], by simp [last, behind]⟩
      | false =>
          obtain ⟨n, size, ends⟩ := ih lexer.draw.2 (drawn.push lexer.draw.1)
          refine ⟨n + 1, ?_, ?_⟩
          · simp only [last, Bool.false_eq_true, if_false, size, Array.size_push]
            omega
          · simp only [last, Bool.false_eq_true, if_false, ends, behind]

theorem run_behind (source : String) :
    (Lexer.run source).2 = (ofSource source).behind (lex source).toList.length := by
  obtain ⟨n, size, ends⟩ := drain_behind (ofSource source) (ofSource source).buffer.bytes.size #[]
  have count : (lex source).toList.length = n := by
    rw [Array.length_toList, lex, Lexer.run, size, List.size_toArray, List.length_nil, Nat.zero_add]
  rw [Lexer.run, ends, count]

/-- A source is drawn token by token. -/
theorem draws_lex (source : String) : Draws source (ofSource source) (lex source).toList := by
  have front : (ofSource source).Between [] (Text.bytes source) :=
    ⟨Cursor.between_cursorFrom_zero source, rfl⟩
  exact front.draws (lexed_lex source) rfl rfl (Text.edge_zero source)

theorem lexAt?_eq (source : String) (i : Nat) :
    lexAt? source i = some ((ofSource source).behind i).draw.1 := by
  rw [← (draws_lex source).draw_behind i, lexAt?, ← Array.getElem?_toList, Array.length_toList]

/-- The last token is at the last place of the source, and at every place behind it. -/
theorem lexAt?_last {i : Nat} {t : Token} (place : lexAt? source i = some t) (last : t.isLast = true) :
    (lex source).size - 1 ≤ i ∧ ∀ j, (lex source).size - 1 ≤ j → lexAt? source j = some t := by
  have ends := (draws_lex source).isLast_of_getElem? (by rw [← place, lexAt?, Array.getElem?_toList]) last
  rw [Array.length_toList] at ends
  refine ⟨by omega, fun j beyond => ?_⟩
  rw [← place, lexAt?, lexAt?, ends, Nat.min_eq_right beyond]

/-!
### Calls in any order
-/

variable {before : List Event}

/-- Drawing takes no note of iteration. -/
theorem draw_finished (lexer : Lexer) (b : Bool) : ({ lexer with finished := b } : Lexer).draw =
    (lexer.draw.1, { lexer.draw.2 with finished := b }) := by
  obtain ⟨buffer, position, fault?, finished⟩ := lexer
  cases fault? <;> rfl

/-- The lexer has come to where it is by the events: all it remembers is how many tokens have been drawn, and
    whether iteration has drawn the last one. -/
structure Behind (source : String) (before : List Event) (lexer : Lexer) : Prop where
  state : lexer = { (ofSource source).behind (drawn before).length with finished := lexer.finished }
  latched : lexer.finished = true ↔ Latched before
  tokens : ∀ i t, (drawn before)[i]? = some t → lexAt? source i = some t

theorem Behind.nil (source : String) : Behind source [] (ofSource source) where
  state := rfl
  latched := by simp [ofSource, Latched]
  tokens := by simp [drawn]

variable {e : Event} {call : Call}

theorem drawn_append_singleton (before : List Event) (e : Event) :
    drawn (before ++ [e]) = drawn before ++ e.drawn?.toList := by
  rw [drawn, List.filterMap_append]
  cases found : e.drawn? <;> simp [drawn, found]

theorem latched_append_singleton : Latched (before ++ [e]) ↔
    Latched before ∨ (e.call = .next ∧ ∃ t, e.drawn? = some t ∧ t.isLast = true) := by
  simp [Latched, or_and_right, exists_or]

namespace Behind

theorem draw_eq (behind : Behind source before lexer) : lexer.draw =
    (((ofSource source).behind (drawn before).length).draw.1,
      { (ofSource source).behind ((drawn before).length + 1) with finished := lexer.finished }) := by
  rw [congrArg draw behind.state, draw_finished, behind_succ]

/-- The next token is the one at the place that is reached. -/
theorem place (behind : Behind source before lexer) :
    lexAt? source (drawn before).length = some lexer.draw.1 := by
  rw [lexAt?_eq, behind.draw_eq]

/-- Behind a call that draws a token, one more has been drawn. -/
theorem drawing (behind : Behind source before lexer) {e : Event} {finished : Bool}
    (draws : e.drawn? = some lexer.draw.1) (latched : finished = true ↔ Latched (before ++ [e])) :
    Behind source (before ++ [e]) { lexer.draw.2 with finished } := by
  have more : drawn (before ++ [e]) = drawn before ++ [lexer.draw.1] := by
    rw [drawn_append_singleton, draws]
    rfl
  refine ⟨?_, latched, ?_⟩
  · rw [more, List.length_append, behind.draw_eq]
    rfl
  · intro i t found
    rw [more] at found
    rcases Nat.lt_or_ge i (drawn before).length with inside | beyond
    · rw [List.getElem?_append_left inside] at found
      exact behind.tokens i t found
    · rw [List.getElem?_append_right beyond] at found
      obtain ⟨here, rfl⟩ := List.getElem?_eq_some_iff.mp found
      obtain rfl : i = (drawn before).length := by
        rw [List.length_singleton] at here
        omega
      simpa using behind.place

/-- Behind a call that draws none, all is as it was. -/
theorem idle (behind : Behind source before lexer) {e : Event} (none : e.drawn? = none) :
    Behind source (before ++ [e]) lexer := by
  have same : drawn (before ++ [e]) = drawn before := by simp [drawn_append_singleton, none]
  refine ⟨same ▸ behind.state, ?_, same ▸ behind.tokens⟩
  rw [latched_append_singleton, behind.latched]
  simp [none]

/-- The fault of the source is told once its token has been drawn, and not before. -/
theorem fault (behind : Behind source before lexer) : (lexer.event .fault).Follows source before := by
  have draws := draws_lex source
  obtain ⟨last, ends, finish, invalid⟩ := draws.fault
  have size : (lex source).toList.length = (lex source).size := Array.length_toList
  have nonempty := List.length_pos_iff.mpr draws.ne_nil
  have remembered : lexer.fault? = if (drawn before).length < (lex source).size then none
      else (Lexer.run source).2.fault? := by
    rw [congrArg Lexer.fault? behind.state, run_behind, ← size]
    exact draws.fault?_behind _
  have final : lexAt? source ((lex source).size - 1) = some last := by
    rw [lexAt?, Nat.min_self, ← Array.getElem?_toList, ← size, ends]
  rw [← run_behind] at finish invalid
  rw [event, answer]
  by_cases reached : (lex source).size ≤ (drawn before).length
  · rw [if_neg (Nat.not_lt.mpr reached)] at remembered
    cases found : (Lexer.run source).2.fault? with
    | none =>
        rw [remembered, found]
        refine .faultless fun t member faulty => ?_
        obtain ⟨i, place⟩ := List.mem_iff_getElem?.mp member
        obtain ⟨-, stays⟩ := lexAt?_last (behind.tokens i t place) (by simp [Token.isLast, faulty])
        have same := (stays _ (Nat.le_refl _)).symm.trans final
        obtain rfl : t = last := Option.some.inj same
        simp [finish found] at faulty
    | some f =>
        rw [remembered, found]
        obtain ⟨faulty, explains⟩ := invalid f found
        have inside : (lex source).size - 1 < (drawn before).length := by omega
        have same := (behind.tokens _ _ (List.getElem?_eq_getElem inside)).symm.trans final
        have member : last ∈ drawn before := Option.some.inj same ▸ List.getElem_mem inside
        exact .fault member faulty found explains
  · rw [if_pos (Nat.not_le.mp reached)] at remembered
    rw [remembered]
    refine .faultless fun t member faulty => ?_
    obtain ⟨i, place⟩ := List.mem_iff_getElem?.mp member
    obtain ⟨inside, -⟩ := List.getElem?_eq_some_iff.mp place
    have beyond := (lexAt?_last (behind.tokens i t place) (by simp [Token.isLast, faulty])).1
    omega

/-- A call does what it should, and its event is all that the lexer remembers of it. -/
theorem step (behind : Behind source before lexer) (call : Call) :
    (lexer.event call).Follows source before ∧
      Behind source (before ++ [lexer.event call]) (lexer.answer call).2 := by
  cases call with
  | draw =>
      refine ⟨.draw behind.place, @drawing _ _ _ behind _ lexer.draw.2.finished rfl ?_⟩
      rw [latched_append_singleton, behind.draw_eq, behind.latched]
      simp [event]
  | next =>
      cases latched : lexer.finished with
      | true =>
          have none : lexer.event .next = ⟨.next, none, .item none⟩ := by
            simp [event, drawn?, answer, next?, latched]
          have same : (lexer.answer .next).2 = lexer := by simp [answer, next?, latched]
          rw [none, same]
          exact ⟨.latched (behind.latched.mp latched), behind.idle rfl⟩
      | false =>
          have going : ¬ Latched before := fun before => by simp [behind.latched.mpr before] at latched
          have draws : lexer.event .next = ⟨.next, some lexer.draw.1,
              .item (if lexer.draw.1.kind = .finish then none else some lexer.draw.1)⟩ := by
            simp [event, drawn?, answer, next?, latched]
          have after : (lexer.answer .next).2 = { lexer.draw.2 with finished := lexer.draw.1.isLast } := by
            simp [answer, next?, latched]
          rw [draws, after]
          refine ⟨?_, behind.drawing rfl ?_⟩
          · split
            case isTrue ends => exact .finish going behind.place ends
            case isFalse other => exact .item going behind.place other
          · simp [latched_append_singleton, going]
  | fault => exact ⟨behind.fault, behind.idle rfl⟩

/-- Each event comes from a lexer that has come to where it is by those before it. -/
theorem history (behind : Behind source before lexer) (calls : List Call) {i : Nat} {e : Event}
    (place : (lexer.history calls)[i]? = some e) : ∃ lexer',
      Behind source (before ++ (lexer.history calls).take i) lexer' ∧ e = lexer'.event e.call := by
  induction calls generalizing lexer before i with
  | nil => simp [Lexer.history] at place
  | cons call calls ih =>
      rw [Lexer.history] at place ⊢
      cases i with
      | zero =>
          obtain rfl : lexer.event call = e := by simpa using place
          exact ⟨lexer, by simpa using behind, rfl⟩
      | succ i =>
          rw [List.getElem?_cons_succ] at place
          obtain ⟨lexer', later, event⟩ := ih (behind.step call).2 place
          exact ⟨lexer', by simpa using later, event⟩

end Behind

/-- Iteration that yields a faulty token is still going, and comes to its end by it. -/
theorem Event.Follows.of_yieldsFault (follows : e.Follows source before) (yields : e.YieldsFault) :
    ¬ Latched before ∧ e.call = .next ∧ ∃ t, e.drawn? = some t ∧ t.isLast = true := by
  obtain ⟨t, next, answer, faulty⟩ := yields
  cases follows with
  | item going =>
      obtain rfl : _ = t := by simpa using answer
      exact ⟨going, rfl, _, rfl, by simp [Token.isLast, faulty]⟩
  | finish | latched => simp at answer
  | draw | fault | faultless => cases next

/-- Whatever the calls are, and in whatever order, each of them does what it should. -/
theorem history_conforms (source : String) (calls : List Call) :
    Conforms source ((ofSource source).history calls) := by
  have follows (i : Nat) (e : Event) (place : ((ofSource source).history calls)[i]? = some e) :
      e.Follows source (((ofSource source).history calls).take i) := by
    obtain ⟨lexer, behind, event⟩ := (Behind.nil source).history calls place
    rw [List.nil_append] at behind
    rw [event]
    exact (behind.step e.call).1
  refine ⟨follows, ?stays, ?once⟩
  case stays =>
    intro i e place t member last u drawn
    obtain ⟨lexer, behind, -⟩ := (Behind.nil source).history calls place
    rw [List.nil_append] at behind
    obtain ⟨j, earlier⟩ := List.mem_iff_getElem?.mp member
    obtain ⟨inside, -⟩ := List.getElem?_eq_some_iff.mp earlier
    obtain ⟨beyond, stays⟩ := lexAt?_last (behind.tokens j t earlier) last
    have here := stays _ (beyond.trans (Nat.le_of_lt inside))
    cases follows i e place with
    | draw found | item _ found | finish _ found =>
        obtain rfl := Option.some.inj drawn
        exact Option.some.inj (found.symm.trans here)
    | latched | fault | faultless => cases drawn
  case once =>
    rw [List.pairwise_iff_getElem]
    intro i j first second less
    rintro ⟨yields, again⟩
    obtain ⟨-, next, drawn⟩ := (follows i _ (List.getElem?_eq_getElem first)).of_yieldsFault yields
    obtain ⟨going, -⟩ := (follows j _ (List.getElem?_eq_getElem second)).of_yieldsFault again
    exact going ⟨_, List.mem_take_iff_getElem.mpr ⟨i, by omega, rfl⟩, next, drawn⟩

end Lexer

end BuildScript
