/-
Module: BuildScript.Proofs.Diagnostics
Layer: proofs about programs
Purpose: What a failed reading says of the token that it stands in front of. The text of the failure is one of a
  fixed list, and what it says is so: the token that it calls missing is another one, the phrase that it
  calls missing cannot begin with the token, whatever came behind, and an operand that it calls wrong has
  just been read.
Main exports: SyntaxError.catalog, currentToken?, parse_diagnosed
-/
import BuildScript.Proofs.Grammar.Diagnosis
import BuildScript.Proofs.Lookahead
import BuildScript.Proofs.Token.Sound

namespace BuildScript

/-!
### Texts
-/

namespace SyntaxError

/-- The texts that syntax errors have. -/
def catalog : List String :=
  ["array: expected expression", "array: expected closing bracket", "dictionary: expected key",
    "dictionary: expected colon", "dictionary: expected value", "dictionary: expected closing brace",
    "invalid expression", "expected closing paren", "expected field name", "field name must be plain id",
    "subscript: expected expression", "subscript: expected closing bracket",
    "application: expected argument", "application: expected closing paren",
    "application: expected kwarg name", "application: expected kwarg value",
    "application: expected keyword", "unary: expected expression", "multiplicative: expected expression",
    "additive: expected expression", "relational: expected expression", "expected `in' after `not'",
    "equality: expected expression", "logical and: expected expression",
    "logical or: expected expression", "ternary: expected true clause", "ternary: expected colon",
    "ternary: expected false clause", "assignment target must be an id",
    "assignment: expected expression", "foreach: expected identifier", "foreach: expected colon",
    "foreach: expected expression", "foreach: expected endforeach", "if: expected predicate",
    "if: expected endif", "number: integer constant out of range", "program: expected end of input"]

/-- The causes in the order of their texts. -/
def all : List SyntaxError :=
  [.arrayItem, .arrayClose, .dictionaryKey, .dictionaryColon, .dictionaryValue, .dictionaryClose,
    .parenthesized, .closingParen, .fieldMissing, .fieldName, .subscriptIndex, .subscriptClose, .argument,
    .argumentsClose, .keywordName, .keywordValue, .keywordMissing, .unaryOperand,
    .multiplicativeOperand, .additiveOperand, .relationalOperand, .inAfterNot, .equalityOperand,
    .andOperand, .orOperand, .ternaryThen, .ternaryColon, .ternaryElse, .assignmentTarget,
    .assignmentValue, .loopVariable, .loopColon, .loopIterable, .endforeach, .predicate, .endif,
    .numberRange, .endOfInput]

theorem mem_all (cause : SyntaxError) : cause ∈ all := by
  cases cause <;> decide

theorem map_message_all : all.map message = catalog := rfl

theorem message_mem_catalog (cause : SyntaxError) : cause.message ∈ catalog :=
  map_message_all ▸ List.mem_map_of_mem (mem_all cause)

end SyntaxError

/-!
### Numbers
-/

/-- A number that the grammar finds no value of has one that is out of range. -/
theorem Token.exists_magnitude_of_number_none {t : Token} {length : Nat} (formed : t.Formed length)
    (terminal : t.terminal? = some (.number none)) : ∃ radix n, t.kind = .number radix ∧
      Numeral.magnitude? radix t.text = some n ∧ 2 ^ 63 ≤ n := by
  cases kind : t.kind with
  | number radix =>
      simp only [terminal?, kind, Option.some.injEq, Terminal.number.injEq] at terminal
      simp only [Token.Formed, kind] at formed
      obtain ⟨nonempty, digits⟩ := formed
      have some_byte : Text.bytes t.text ≠ [] := fun empty => by
        rw [← Text.ofBytes_bytes t.text, empty] at nonempty
        exact nonempty rfl
      obtain ⟨n, magnitude⟩ := Numeral.exists_magnitude? some_byte digits
      rw [Numeral.value?_eq, magnitude, Option.bind_some, Numeral.ofNat?] at terminal
      split at terminal
      · cases terminal
      · rename_i beyond
        exact ⟨radix, n, rfl, magnitude, Nat.not_lt.mp beyond⟩
  | _ => simp [terminal?, kind] at terminal

/-!
### Where a reading ends
-/

open BuildScript.Parser
open Grammar (Refused)

/-- The token that the reading of a source stands in front of when it ends. -/
def currentToken? (source : String) (maxNodes : Option Nat) : Option Token :=
  (lex source).toList[tokensDrawn source maxNodes - 1]?

/-- What the grammar rejects under a limit, it rejects in the same place without one. -/
theorem refused_of_readTerminals {maxNodes : Option Nat} {input : List Terminal} {cause : SyntaxError}
    {s : State} (run : readTerminals maxNodes input = .error (.rejected cause) s) :
    Refused input cause s.input := by
  have free (s : State) (run : readTerminals none input = .error (.rejected cause) s) :
      Refused input cause s.input := by
    obtain ⟨o, built, rfl, refused⟩ := Grammar.rejects_program 0 cause s run
    exact refused
  cases maxNodes with
  | none => exact free s run
  | some n =>
      have under := (Bounded.program input.length).under { input, built := 0, limit := none } n rfl
        (Nat.zero_le n)
      rw [← readTerminals_eq, ← readTerminals_eq, run] at under
      by_cases fits : (Outcome.state (readTerminals none input)).built ≤ n
      · have same := under.fits fits
        cases unlimited : readTerminals none input with
        | ok t s' => simp [unlimited, Outcome.limited] at same
        | error e s' =>
            rw [unlimited] at same
            cases same
            exact free s' unlimited
      · obtain ⟨s', same⟩ := under.overflows (Nat.not_le.mp fits)
        cases same

/-- The end of a source is a token but no terminal, if nothing in the source is faulty. -/
theorem length_terminals_lt {source : String} (right : .invalid ∉ terminals source) :
    (terminals source).length < (lex source).toList.length := by
  obtain ⟨t, drawn, last⟩ := (lexed_lex source).exists_isLast
  have finish : t.kind = .finish := by
    have other : t.kind ≠ .invalid := fun invalid => right (invalid_mem_terminals drawn invalid)
    simpa [Token.isLast, other] using last
  have ends : t.terminal? = none := by simp [Token.terminal?, finish]
  exact List.length_filterMap_lt_length_iff_exists.mpr ⟨t, drawn, ends⟩

/-- A reading that is rejected stands in front of a token, which is the terminal that comes next. -/
theorem exists_currentToken {source : String} {maxNodes : Option Nat} {cause : SyntaxError} {s : State}
    (run : readTerminals maxNodes (terminals source) = .error (.rejected cause) s) :
    ∃ current, currentToken? source maxNodes = some current ∧ current.terminal? = s.input.head? := by
  obtain ⟨k, inside, rest, -⟩ := Local.program (terminals source).length
    { input := terminals source, built := 0, limit := maxNodes }
  rw [← readTerminals_eq, run] at rest
  replace rest : s.input = (terminals source).drop k := rest
  replace inside : k ≤ (terminals source).length := inside
  have place : tokensDrawn source maxNodes - 1 = k := by
    simp only [tokensDrawn_eq, run, Outcome.state, rest, List.length_drop]
    omega
  have next : s.input.head? = (lex source).toList[k]?.bind Token.terminal? := by
    rw [rest, List.head?_drop, getElem?_terminals]
  rw [currentToken?, place, next]
  cases found : (lex source).toList[k]? with
  | some current => exact ⟨current, rfl, rfl⟩
  | none =>
      -- Nothing would be left, but a fault is never passed and the end is no terminal.
      have beyond := List.getElem?_eq_none_iff.mp found
      have none_left : s.input = [] := by
        rw [rest, List.drop_eq_nil_iff]
        exact Nat.le_trans (List.length_filterMap_le _ _) beyond
      have right : .invalid ∉ terminals source := fun invalid => by
        have left := (refused_of_readTerminals run).invalid_mem invalid
        simp [none_left] at left
      have fewer := length_terminals_lt right
      omega

/-- A reading fails because of its limit, or with a text of the catalog that is true of the token that it
    stands in front of. -/
theorem parse_diagnosed {source : String} {maxNodes : Option Nat} {e : ParseError}
    (failed : parse source maxNodes = .error e) :
    e = .outOfMemory ∨ ∃ cause s current, e = .rejected cause ∧ e.message ∈ SyntaxError.catalog ∧
      parseTerminals maxNodes (terminals source) = .error (.rejected cause) s ∧
      currentToken? source maxNodes = some current ∧ current.terminal? = s.input.head? ∧
      cause.Fits (terminals source) s.input ∧
      (cause = .numberRange → ∃ radix n, current.kind = .number radix ∧
        Numeral.magnitude? radix current.text = some n ∧ 2 ^ 63 ≤ n) := by
  unfold parse at failed
  cases filled : parseTerminals maxNodes (terminals source) with
  | ok root s => simp [filled] at failed
  | error e' s =>
      obtain rfl : e' = e := by simpa [filled] using failed
      have run := readTerminals_eq_error filled
      cases e' with
      | outOfMemory => exact .inl rfl
      | rejected cause =>
          have fits := (refused_of_readTerminals run).fits
          obtain ⟨current, place, next⟩ := exists_currentToken run
          refine .inr ⟨cause, s, current, rfl, cause.message_mem_catalog, rfl, place, next, fits, ?_⟩
          rintro rfl
          have number : s.input.head? = some (.number none) := fits
          have drawn : current ∈ (lex source).toList := List.mem_of_getElem? place
          exact Token.exists_magnitude_of_number_none (Token.formed_of_mem_lex drawn) (next.trans number)

/-- Where a comma is missing in an array, the reading asks for its end in front of the next item. -/
theorem parse_diagnosed_missing_bracket :
    parse "values = [first, 'second' 0xF]" (some 9) = .error (.rejected .arrayClose) ∧
      ∃ current, currentToken? "values = [first, 'second' 0xF]" (some 9) = some current ∧
        current.terminal? ≠ some (.punct .rightBracket) := by
  have failed : parse "values = [first, 'second' 0xF]" (some 9) = .error (.rejected .arrayClose) := by
    cbv
  refine ⟨failed, ?_⟩
  rcases parse_diagnosed failed with limit | ⟨cause, s, current, same, -, -, place, next, fits, -⟩
  · cases limit
  · cases same
    exact ⟨current, place, next ▸ fits⟩

end BuildScript
