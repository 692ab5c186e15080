/-
Module: BuildScript.Proofs.RoundTrip
Layer: proofs about programs
Purpose: Reading a program, writing it as source text and reading the text gives the same program again, node
  for node and under the same limit.
Main exports: readTree_written, isProgram_of_parse, parse_source
-/
import BuildScript.Proofs.NodeLimit
import BuildScript.Proofs.Grammar.Acceptance
import BuildScript.Proofs.Spelling.Written
import BuildScript.Proofs.Token.Sound

namespace BuildScript

open Grammar BuildScript.Tree

/-- The lines of a proper program are read as it. -/
theorem readTree_written {t : Tree} {lines : List Line} (proper : t.isProper = true)
    (h : t.body 0 false = .ok lines) : readTree none (written lines) = .ok t := by
  have spelt := spelt_written (legible_body t proper h) .nil rfl
  simp only [List.append_nil] at spelt
  have program := (derives_body t proper h [] endsBody_nil).1
  rw [List.append_nil, ← terminals_eq_of_spelt spelt] at program
  exact readTree_eq_ok.mpr program

theorem isProper_of_readTree {source : String} {t : Tree} (read : readTree none source = .ok t) :
    t.isBody = true ∧ t.isProper = true :=
  (readTree_eq_ok.mp read).isProper fun _ => isWord_of_name_mem_terminals

/-- A tree is read under a limit when it is read without one and is small enough. -/
theorem readTree_eq_ok_iff_size {source : String} {maxNodes : Option Nat} {t : Tree} :
    readTree maxNodes source = .ok t ↔
      readTree none source = .ok t ∧ ∀ n, maxNodes = some n → t.size ≤ n := by
  cases maxNodes with
  | none => simp
  | some n =>
      rw [readTree_limit]
      constructor
      · intro read
        split at read
        · cases read
        · rename_i fits
          rw [nodesBuilt_eq_size read] at fits
          exact ⟨read, fun m same => by cases same; exact Nat.not_lt.mp fits⟩
      · intro h
        obtain ⟨read, fits⟩ := h
        rw [nodesBuilt_eq_size read, if_neg (Nat.not_lt.mpr (fits n rfl))]
        exact read

/-- A program that is read is derived, whatever the limit. -/
theorem isProgram_of_parse {source : String} {maxNodes : Option Nat} {ast : Ast}
    (parsed : parse source maxNodes = .ok ast) : IsProgram (terminals source) ast.tree := by
  obtain ⟨t, read, rfl⟩ := parse_eq_ok.mp parsed
  obtain ⟨unlimited, -⟩ := readTree_eq_ok_iff_size.mp read
  rw [tree_toAst (isWhole_of_isProper t (isProper_of_readTree unlimited).2)]
  exact readTree_eq_ok.mp unlimited

/-- The source text of a proper tree in flat form is that of its lines. -/
theorem source_toAst {t : Tree} (body : t.isBody = true) (proper : t.isProper = true)
    (maxNodes : Option Nat) :
    (t.toAst maxNodes).source = (do let lines ← t.body 0 false; return written lines) :=
  calc (t.toAst maxNodes).source
      = t.spelling := congrArg Tree.spelling (tree_toAst (isWhole_of_isProper t proper) maxNodes)
    _ = _ := by rw [Tree.spelling, asProgram_of_isProper body proper]

/-- The source text of a program that is read is read as the same program, under the same limit. -/
theorem parse_source {source text : String} {maxNodes : Option Nat} {ast : Ast}
    (parsed : parse source maxNodes = .ok ast) (spelt : ast.source = .ok text) :
    parse text maxNodes = .ok ast := by
  obtain ⟨t, read, rfl⟩ := parse_eq_ok.mp parsed
  -- The limit plays no part in the reading of either text, since both make the same tree.
  obtain ⟨unlimited, fits⟩ := readTree_eq_ok_iff_size.mp read
  obtain ⟨body, proper⟩ := isProper_of_readTree unlimited
  rw [source_toAst body proper] at spelt
  obtain ⟨lines, inside, ⟨⟩⟩ := bind_eq_ok.mp spelt
  have again := readTree_written proper inside
  exact parse_eq_ok.mpr ⟨t, readTree_eq_ok_iff_size.mpr ⟨again, fits⟩, rfl⟩

/-- Parentheses that the grammar has no use for are left out, under a limit that is just kept. -/
theorem parse_source_product : ∃ ast, parse "(a-b)*(c)" (some 6) = .ok ast ∧
    ast.source = .ok "(a - b) * c" ∧ parse "(a - b) * c" (some 6) = .ok ast := by
  have read : readTree (some 6) "(a-b)*(c)" = .ok
      (.sequence [.arithmetic .mul (.arithmetic .sub (.name "a") (.name "b")) (.name "c")]) := by
    cbv
  have parsed := parse_eq_ok.mpr ⟨_, read, rfl⟩
  obtain ⟨body, proper⟩ := isProper_of_readTree (readTree_eq_ok_iff_size.mp read).1
  have lines : Tree.body 0 false
      (.sequence [.arithmetic .mul (.arithmetic .sub (.name "a") (.name "b")) (.name "c")]) =
      .ok [⟨0, [.opening, .name "a", .space, .sign .minus, .space, .name "b", .closing, .space,
        .sign .star, .space, .name "c"]⟩] := rfl
  have spelt := source_toAst body proper (some 6)
  rw [lines] at spelt
  exact ⟨_, parsed, spelt, parse_source parsed spelt⟩

end BuildScript
