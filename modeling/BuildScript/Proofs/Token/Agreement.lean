/-
Module: BuildScript.Proofs.Token.Agreement
Layer: proofs about tokens
Purpose: Tokens that mean the same, and that the grammar cannot tell them apart. Spans, the quotes of strings
  and the number systems of numbers leave no trace in a terminal, nor does what a faulty token consists
  of. Every token but the last is a terminal, so the first terminals come from the first tokens.
Main exports: Token.Agrees, terminals_take, terminals_take_eq
-/
import BuildScript.Proofs.Token.Numeral
import Mathlib.Data.List.Forall2

namespace BuildScript

namespace Token

/-- The tokens mean the same, wherever they stand and however they are written. -/
inductive Agrees (t u : Token) : Prop where
  | same (kind : t.kind = u.kind) (text : t.text = u.text)
  | keyword (word : Keyword) (left : t.kind = .keyword word) (right : u.kind = .keyword word)
  | punct (sign : Punct) (left : t.kind = .punct sign) (right : u.kind = .punct sign)
  | string (q q' : Quoting) (left : t.kind = .string q) (right : u.kind = .string q')
      (content : t.text = u.text)
  | number (radix radix' : Radix) (left : t.kind = .number radix) (right : u.kind = .number radix')
      (magnitude : Numeral.magnitude? radix t.text = Numeral.magnitude? radix' u.text)
  | invalid (left : t.kind = .invalid) (right : u.kind = .invalid)

/-- Tokens that mean the same are the same to the grammar. -/
theorem Agrees.terminal?_eq {t u : Token} (h : t.Agrees u) : t.terminal? = u.terminal? := by
  cases h with
  | same kind text => rw [terminal?, terminal?, kind, text]
  | keyword word left right => simp only [terminal?, left, right]
  | punct sign left right => simp only [terminal?, left, right]
  | string q q' left right content => simp only [terminal?, left, right, content]
  | number radix radix' left right magnitude =>
      simp only [terminal?, left, right, Numeral.value?_eq, magnitude]
  | invalid left right => simp only [terminal?, left, right]

/-- Only the last token is nothing to the grammar. -/
theorem isSome_terminal? {t : Token} (more : t.isLast = false) : t.terminal?.isSome = true := by
  cases kind : t.kind <;> simp_all [terminal?, isLast]

end Token

/-!
### The first tokens
-/

/-- Drawing goes on behind every token but the last. -/
theorem Lexer.isLast_of_mem_dropLast {steps : Nat} {lexer : Lexer} {drawn : Array Token}
    (more : ∀ t ∈ drawn.toList, t.isLast = false) :
    ∀ t ∈ (lexer.drain steps drawn).1.toList.dropLast, t.isLast = false := by
  induction steps generalizing lexer drawn with
  | zero => exact fun t member => more t ((List.dropLast_sublist _).mem member)
  | succ steps ih =>
      rw [drain]
      cases last : lexer.draw.1.isLast with
      | true => simpa [last] using more
      | false =>
          have more' : ∀ t ∈ (drawn.push lexer.draw.1).toList, t.isLast = false := by
            intro t member
            rcases Array.mem_push.mp (Array.mem_toList_iff.mp member) with earlier | rfl
            · exact more t (Array.mem_toList_iff.mpr earlier)
            · exact last
          simpa [last] using ih more'

/-- Where nothing but the last element is dropped, the first ones come from the first ones. -/
theorem take_filterMap_eq {α β : Type} {f : α → Option β} {l : List α}
    (all : ∀ a ∈ l.dropLast, (f a).isSome = true) (n : Nat) :
    (l.filterMap f).take n = (l.take n).filterMap f := by
  induction l generalizing n with
  | nil => simp
  | cons a l ih =>
      cases n with
      | zero => rfl
      | succ n =>
          cases l with
          | nil => cases found : f a <;> simp [found]
          | cons a' l' =>
              obtain ⟨b, found⟩ := Option.isSome_iff_exists.mp (all a (by simp))
              have others := ih (fun x member => all x (List.mem_cons_of_mem a member)) n
              rw [List.filterMap_cons_some found, List.take_succ_cons, others, List.take_succ_cons,
                List.filterMap_cons_some found]

theorem getElem?_filterMap_eq {α β : Type} {f : α → Option β} {l : List α}
    (all : ∀ a ∈ l.dropLast, (f a).isSome = true) (n : Nat) : (l.filterMap f)[n]? = l[n]?.bind f := by
  induction l generalizing n with
  | nil => simp
  | cons a l ih =>
      cases l with
      | nil => cases n <;> cases found : f a <;> simp [found]
      | cons a' l' =>
          obtain ⟨b, found⟩ := Option.isSome_iff_exists.mp (all a (by simp))
          rw [List.filterMap_cons_some found]
          cases n with
          | zero => simp [found]
          | succ n => exact ih (fun x member => all x (List.mem_cons_of_mem a member)) n

/-- In a source, all tokens but the last are terminals. -/
theorem isSome_terminal?_of_mem_dropLast (source : String) :
    ∀ t ∈ (lex source).toList.dropLast, t.terminal?.isSome = true :=
  fun t member => t.isSome_terminal? (Lexer.isLast_of_mem_dropLast (by simp) t member)

/-- The first terminals are those of the first tokens. -/
theorem terminals_take (source : String) (n : Nat) :
    (terminals source).take n = ((lex source).toList.take n).filterMap Token.terminal? :=
  take_filterMap_eq (isSome_terminal?_of_mem_dropLast source) n

/-- Each terminal is that of the token in its place. -/
theorem getElem?_terminals (source : String) (n : Nat) :
    (terminals source)[n]? = (lex source).toList[n]?.bind Token.terminal? :=
  getElem?_filterMap_eq (isSome_terminal?_of_mem_dropLast source) n

/-- Rows of tokens that mean the same are the same to the grammar. -/
theorem filterMap_terminal?_eq {ts us : List Token} (agree : List.Forall₂ Token.Agrees ts us) :
    ts.filterMap Token.terminal? = us.filterMap Token.terminal? := by
  induction agree with
  | nil => rfl
  | cons first _ ih => rw [List.filterMap_cons, List.filterMap_cons, first.terminal?_eq, ih]

/-- Sources whose first tokens agree have the same first terminals. -/
theorem terminals_take_eq {source other : String} {n : Nat}
    (agree : List.Forall₂ Token.Agrees ((lex source).toList.take n) ((lex other).toList.take n)) :
    (terminals other).take n = (terminals source).take n := by
  rw [terminals_take, terminals_take, filterMap_terminal?_eq agree]

end BuildScript
