/-
Module: BuildScript.Proofs.Literal
Layer: proofs about programs
Purpose: Programs that are one literal. A string is written exactly if one of the two ways to quote its content
  is lexed as that string, and what is written is read back. A number is read as the value that its
  digits have by their positions, however many they are, as long as that is a 64-bit number.
Main exports: LexesAsString, source_string_iff, Numeral.positional, parse_numeral
-/
import BuildScript.Proofs.RoundTrip
import BuildScript.Proofs.Spelling.Conformance
import BuildScript.Proofs.Spelling.Refusal
import Mathlib.Data.Nat.Digits.Defs

namespace BuildScript

open BuildScript.Tree

/-!
### Expressions by themselves
-/

section Alone

variable {t : Tree} {ps : List Piece}

theorem body_of_bare (h : t.bare = .ok ps) : (Tree.sequence [t]).body 0 false = .ok [⟨0, ps⟩] := by
  have line := statement_of_isExpression (isExpression_of_bare h) 0
  rw [h] at line
  simp only [body, statementLines, line]
  rfl

/-- An expression by itself is written as its pieces. -/
theorem spelling_of_bare (proper : t.isProper = true) (h : t.bare = .ok ps) :
    t.spelling = .ok (Piece.join ps) := by
  have program : t.asProgram = .sequence [t] := by
    have expression := isExpression_of_bare h
    rw [asProgram, sequenceBodies_of_isProper t proper]
    cases t <;> first | rfl | cases expression
  rw [spelling, program, body_of_bare h, ← written_singleton]
  rfl

theorem Piece.join_singleton (p : Piece) : Piece.join [p] = p.text := by
  simp [Piece.join]

/-- The pieces of an expression are read as the program that it is by itself. -/
theorem parse_of_bare (proper : t.isProper = true) (h : t.bare = .ok ps) :
    parse (Piece.join ps) none = .ok ((Tree.sequence [t]).toAst none) := by
  have all : (Tree.sequence [t]).isProper = true := by simp [isProper, areProper, proper]
  have read := readTree_written all (body_of_bare h)
  rw [written_singleton] at read
  exact parse_eq_ok.mpr ⟨_, read, rfl⟩

/-- The program that an expression is by itself is written as the pieces of the expression. -/
theorem source_of_bare (proper : t.isProper = true) (h : t.bare = .ok ps) :
    ((Tree.sequence [t]).toAst none).source = .ok (Piece.join ps) := by
  rw [source_toAst rfl (by simp [isProper, areProper, proper]), body_of_bare h, ← written_singleton]
  rfl

end Alone

/-!
### Tokens by themselves
-/

/-- A source that has the shape of one token is lexed as it and the end. -/
theorem lex_eq_of_shape {source : String} {kind : Lexeme.Kind} (token : kind.isToken = true)
    (shape : Lexeme.Shape kind (Text.bytes source) none) :
    (lex source).toList = [kind.token 0 (Text.bytes source) none,
      Lexeme.Kind.finish.token (Text.bytes source).length [] none] := by
  have lexed : Lexed 0 (Text.bytes source ++ []) _ := .token token shape .finish
  rw [List.append_nil, Nat.zero_add] at lexed
  exact lex_eq_of_lexed lexed

/-!
### Strings
-/

/-- The source is one string with the given content, and nothing else. -/
def LexesAsString (source content : String) : Prop :=
  ∃ token last, (lex source).toList = [token, last] ∧ (∃ q, token.kind = .string q) ∧
    token.text = content ∧ last.kind = .finish

/-- Content that fits between quotes is lexed as a string with this content. -/
theorem lexesAsString_wrap {q : Quoting} {content : String} (fits : q.fits content = true) :
    LexesAsString (q.wrap content) content := by
  obtain ⟨unclosed, last⟩ := Quoting.fits_iff.mp fits
  have shape : Lexeme.Shape (.string q) (Text.bytes (q.wrap content)) none := by
    rw [Quoting.bytes_wrap]
    exact .string unclosed last (by simp)
  refine ⟨_, _, lex_eq_of_shape rfl shape, ⟨q, rfl⟩, ?_, rfl⟩
  rw [Lexeme.Kind.token, Quoting.bytes_wrap, Lexeme.Kind.content_string, Text.ofBytes_bytes]

/-- What any source has as the content of a string fits between quotes. -/
theorem LexesAsString.isSome_forContent? {source content : String} (h : LexesAsString source content) :
    (Quoting.forContent? content).isSome = true := by
  obtain ⟨token, last, tokens, ⟨q, kind⟩, rfl, -⟩ := h
  have drawn : token ∈ (lex source).toList := by simp [tokens]
  have terminal : token.terminal? = some (.string token.text) := by simp [Token.terminal?, kind]
  exact Token.isSound_terminal? (Token.formed_of_mem_lex drawn) terminal

theorem bare_string {content : String} {q : Quoting} (found : Quoting.forContent? content = some q) :
    (Tree.string content).bare = .ok [.string q content] := by
  rw [bare, quoted, found]
  rfl

/-- A string by itself is written in the first way that its content fits. -/
theorem spelling_string_eq_ok {content spelt : String} : (Tree.string content).spelling = .ok spelt ↔
    ∃ q, Quoting.forContent? content = some q ∧ spelt = q.wrap content := by
  cases found : Quoting.forContent? content with
  | none =>
      have refusal : (Tree.string content).bare = .error .unspellable := by
        rw [bare, quoted, found]
        rfl
      have program : (Tree.string content).asProgram = .sequence [.string content] := rfl
      rw [spelling, program, body, statementLines, statement_of_isExpression rfl, refusal]
      constructor
      · rintro ⟨⟩
      · rintro ⟨q, ⟨⟩, -⟩
  | some q =>
      rw [spelling_of_bare rfl (bare_string found), Piece.join_singleton, Piece.text]
      constructor
      · rintro ⟨⟩
        exact ⟨q, rfl, rfl⟩
      · rintro ⟨_, ⟨⟩, rfl⟩
        rfl

/-- The tree of a node that is a string and holds its content. -/
theorem Ast.tree_string {ast : Ast} {id : TextId} {content : String}
    (node : ast.arena.node? ast.root = some (.string id)) (text : ast.arena.text? id = some content) :
    ast.tree = .string content := by
  have inside : ast.root.index < ast.arena.nodes.size := (Array.getElem?_eq_some_iff.mp node).1
  obtain ⟨depth, size⟩ := Nat.exists_eq_add_one.mpr (Nat.zero_lt_of_lt inside)
  rw [Ast.tree, Arena.tree, size, Arena.unfold, node]
  simp only [Arena.unfoldNode, text]

/-- A string is written exactly if its content between single or between triple quotes is lexed as the string.
    What is written is then lexed and read as it. -/
theorem source_string_iff {ast : Ast} {id : TextId} {content : String}
    (node : ast.arena.node? ast.root = some (.string id)) (text : ast.arena.text? id = some content) :
    ((∃ spelt, ast.source = .ok spelt) ↔
      LexesAsString ("'" ++ content ++ "'") content ∨ LexesAsString ("'''" ++ content ++ "'''") content) ∧
    ∀ spelt, ast.source = .ok spelt → LexesAsString spelt content ∧
      ∃ again, parse spelt none = .ok again ∧ again.tree = .sequence [.string content] := by
  have source : ast.source = (Tree.string content).spelling := congrArg Tree.spelling (Ast.tree_string node text)
  have lexed {q : Quoting} (found : Quoting.forContent? content = some q) :
      LexesAsString (q.wrap content) content := by
    have fits := List.find?_some found
    exact lexesAsString_wrap fits
  simp only [source, spelling_string_eq_ok]
  refine ⟨⟨?written, ?readable⟩, ?again⟩
  case written =>
    rintro ⟨_, q, found, rfl⟩
    have read := lexed found
    cases q with
    | single =>
        rw [Quoting.wrap, Quoting.mark] at read
        exact .inl read
    | triple =>
        rw [Quoting.wrap, Quoting.mark] at read
        exact .inr read
  case readable =>
    intro h
    have fits : (Quoting.forContent? content).isSome = true := by
      rcases h with single | triple
      · exact single.isSome_forContent?
      · exact triple.isSome_forContent?
    obtain ⟨q, found⟩ := Option.isSome_iff_exists.mp fits
    exact ⟨_, q, found, rfl⟩
  case again =>
    rintro _ ⟨q, found, rfl⟩
    have read := parse_of_bare rfl (bare_string found)
    rw [Piece.join_singleton, Piece.text] at read
    exact ⟨lexed found, _, read, tree_toAst rfl none⟩

/-- A content that begins with a quote is written with four of them in front. -/
theorem source_string_iff_leading_quote : ∃ ast : Ast, ast.arena.node? ast.root = some (.string ⟨0⟩) ∧
    ast.arena.text? ⟨0⟩ = some "'lead" ∧ ast.source = .ok "''''lead'''" ∧
      LexesAsString "''''lead'''" "'lead" ∧
        ∃ again, parse "''''lead'''" none = .ok again ∧ again.tree = .sequence [.string "'lead"] := by
  have written : (Ast.mk ⟨#[.string ⟨0⟩], #[], #["'lead"], none⟩ ⟨0⟩).source = .ok "''''lead'''" := by
    decide +kernel
  exact ⟨_, rfl, rfl, written, (source_string_iff rfl rfl).2 _ written⟩

/-!
### Numbers
-/

namespace Numeral

/-- The value that digits have by their positions, the last one counting once. -/
def positional (radix : Radix) (digits : String) : Nat :=
  Nat.ofDigits radix.base ((Text.bytes digits).reverse.map fun b => (radix.digit? b).getD 0)

/-- Digits are read from the front as the value that they have by their positions. -/
theorem foldlM_append?_eq {radix : Radix} {bytes : List UInt8}
    (all : ∀ b ∈ bytes, radix.isDigit b = true) (n : Nat) : bytes.foldlM (append? radix) n =
      some (Nat.ofDigits radix.base (bytes.reverse.map fun b => (radix.digit? b).getD 0) +
        radix.base ^ bytes.length * n) := by
  induction bytes generalizing n with
  | nil => simp
  | cons b bytes ih =>
      obtain ⟨here, others⟩ := List.forall_mem_cons.mp all
      obtain ⟨d, digit⟩ : ∃ d, radix.digit? b = some d := ⟨_, if_pos here⟩
      have first : append? radix n b = some (radix.base * n + d) := by rw [append?, digit, Option.map_some]
      rw [List.foldlM_cons, first, Option.bind_eq_bind, Option.bind_some, ih others, List.reverse_cons,
        List.map_append, Nat.ofDigits_append]
      simp [digit, pow_succ]
      ring

theorem magnitude?_eq {radix : Radix} {digits : String} (nonempty : Text.bytes digits ≠ [])
    (all : ∀ b ∈ Text.bytes digits, radix.isDigit b = true) :
    magnitude? radix digits = some (positional radix digits) := by
  rw [magnitude?_of_ne_nil nonempty, foldlM_append?_eq all 0, positional, Nat.mul_zero, Nat.add_zero]

end Numeral

/-- A numeral is one terminal, whatever its value. -/
theorem terminals_numeral {radix : Radix} {digits : String} (nonempty : Text.bytes digits ≠ [])
    (all : ∀ b ∈ Text.bytes digits, radix.isDigit b = true) :
    terminals (radix.mark ++ digits) = [.number (Numeral.value? radix digits)] := by
  have shape : Lexeme.Shape (.number radix) (Text.bytes (radix.mark ++ digits)) none :=
    .number ⟨Text.bytes digits, Text.bytes_append _ _, nonempty, all⟩ rfl
  rw [terminals, lex_eq_of_shape rfl shape, Text.bytes_append]
  simp only [Lexeme.Kind.token, Lexeme.Kind.tokenKind, Lexeme.Kind.content_number, Text.ofBytes_bytes]
  rfl

/-- A number that is out of range is rejected before anything is built. -/
theorem readTerminals_number_none (maxNodes : Option Nat) : ∃ s,
    readTerminals maxNodes [.number none] = .error (.rejected .numberRange) s :=
  ⟨_, rfl⟩

theorem readTerminals_number_some (value : Int64) : ∃ s,
    readTerminals none [.number (some value)] = .ok (.sequence [.number value]) s :=
  ⟨_, rfl⟩

/-- Digits behind the mark of their radix are read as the value that they have by their positions, if that is
    a 64-bit number, and are out of range otherwise. The number is written in decimal, and is read back. -/
theorem parse_numeral (radix : Radix) {digits : String} (nonempty : digits ≠ "")
    (all : ∀ b ∈ Text.bytes digits, radix.isDigit b = true) :
    (Numeral.positional radix digits ≤ 2 ^ 63 - 1 → ∃ ast value,
      parse (radix.mark ++ digits) none = .ok ast ∧ ast.tree = .sequence [.number value] ∧
        value.toInt = Numeral.positional radix digits ∧
          ast.source = .ok (Numeral.positional radix digits).repr ∧
            parse (Numeral.positional radix digits).repr none = .ok ast) ∧
    (2 ^ 63 - 1 < Numeral.positional radix digits → ∃ cause,
      cause.message = "number: integer constant out of range" ∧
        ∀ maxNodes, parse (radix.mark ++ digits) maxNodes = .error (.rejected cause)) := by
  have bytes : Text.bytes digits ≠ [] := by
    intro empty
    apply nonempty
    rw [← Text.ofBytes_bytes digits, empty]
    rfl
  have value : Numeral.value? radix digits = Numeral.ofNat? (Numeral.positional radix digits) := by
    rw [Numeral.value?_eq, Numeral.magnitude?_eq bytes all, Option.bind_some]
  have seen := terminals_numeral bytes all
  rw [value, Numeral.ofNat?] at seen
  generalize Numeral.positional radix digits = n at seen
  constructor
  · intro inside
    have small : n < Numeral.bound := by
      unfold Numeral.bound
      omega
    have same : (Int64.ofNat n).toInt = n := Numeral.toInt_ofNat small
    have positive : ¬ Int64.ofNat n < 0 := by
      rw [Int64.lt_iff_toInt_lt, same]
      simp
    have digits_written : (Tree.number (Int64.ofNat n)).bare = .ok [.number (Int64.ofNat n)] := by
      rw [bare, numeral, if_neg positive]
      rfl
    have decimal : Piece.join [.number (Int64.ofNat n)] = n.repr := by
      rw [Piece.join_singleton, Piece.text, Text.decimal, if_neg positive, same, Int.natAbs_natCast]
    obtain ⟨s, run⟩ := readTerminals_number_some (Int64.ofNat n)
    have read : readTree none (radix.mark ++ digits) = .ok (.sequence [.number (Int64.ofNat n)]) := by
      rw [readTree, seen, if_pos small, run]
    rw [← decimal]
    exact ⟨_, _, parse_eq_ok.mpr ⟨_, read, rfl⟩, tree_toAst rfl none, same,
      source_of_bare rfl digits_written, parse_of_bare rfl digits_written⟩
  · intro beyond
    have large : ¬ n < Numeral.bound := by
      unfold Numeral.bound
      omega
    refine ⟨.numberRange, rfl, fun maxNodes => ?_⟩
    obtain ⟨s, run⟩ := readTerminals_number_none maxNodes
    rw [parse_eq, readTree, seen, if_neg large, run]
    rfl

/-- The first number out of range, in hexadecimal with a zero in front, and the last one in range, in octal. -/
theorem parse_numeral_bounds :
    ("08000000000000000" ≠ "" ∧ (∀ b ∈ Text.bytes "08000000000000000", Radix.hexadecimal.isDigit b = true) ∧
      ∃ cause, cause.message = "number: integer constant out of range" ∧
        ∀ maxNodes, parse "0x08000000000000000" maxNodes = .error (.rejected cause)) ∧
    ("777777777777777777777" ≠ "" ∧ (∀ b ∈ Text.bytes "777777777777777777777", Radix.octal.isDigit b = true) ∧
      ∃ ast, parse "0o777777777777777777777" none = .ok ast ∧ ast.source = .ok "9223372036854775807") := by
  have hexadecimal : ∀ b ∈ Text.bytes "08000000000000000", Radix.hexadecimal.isDigit b = true := by
    decide +kernel
  have octal : ∀ b ∈ Text.bytes "777777777777777777777", Radix.octal.isDigit b = true := by
    decide +kernel
  have first : Numeral.positional .hexadecimal "08000000000000000" = 2 ^ 63 := by decide +kernel
  have last : Numeral.positional .octal "777777777777777777777" = 2 ^ 63 - 1 := by decide +kernel
  refine ⟨⟨by decide, hexadecimal, ?_⟩, ⟨by decide, octal, ?_⟩⟩
  · exact (parse_numeral .hexadecimal (by decide) hexadecimal).2 (by rw [first]; decide)
  · obtain ⟨ast, _, read, _, _, written, _⟩ :=
      (parse_numeral .octal (by decide) octal).1 (by rw [last])
    rw [last] at written
    exact ⟨ast, read, written⟩

end BuildScript
