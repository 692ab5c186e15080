/-
Module: BuildScript.Proofs.Parentheses
Layer: proofs about programs
Purpose: No parenthesis around an operand is written in vain. The text of a program is the shortest that the
  program is read from, counted in terminals, and taking parentheses out of it takes out nothing else: so
  what is left is read as another program, if it is read at all.
Main exports: Tree.Encloses, length_terminals_source_le, parse_unenclosed_ne
-/
import BuildScript.Proofs.RoundTrip
import BuildScript.Proofs.Spelling.Terse

namespace BuildScript

open Grammar

theorem Piece.join_append (ps qs : List Piece) :
    Piece.join (ps ++ qs) = Piece.join ps ++ Piece.join qs := by
  simp only [join, List.map_append, String.join_append]

/-- The text of parenthesized pieces has the parentheses around it. -/
theorem Piece.join_parenthesized (ps : List Piece) :
    Piece.join (Piece.parenthesized ps) = "(" ++ Piece.join ps ++ ")" := by
  simp [parenthesized, join, Piece.text, Punct.text, String.append_assoc]

namespace Tree

/-!
### Lines in the middle of a text
-/

/-- The text of lines behind others. -/
def textBehind (lines : List Line) : String :=
  String.join (lines.map fun line => "\n" ++ indentation line.depth ++ line.text)

theorem textBehind_cons (line : Line) (lines : List Line) : textBehind (line :: lines) =
    "\n" ++ indentation line.depth ++ line.text ++ textBehind lines := by
  rw [textBehind, List.map_cons, String.join_cons]
  rfl

/-- Lines that are added to a text that is not empty follow it, each on a line of its own. -/
theorem foldl_withLine {text : String} (something : text ≠ "") (lines : List Line) :
    lines.foldl withLine text = text ++ textBehind lines := by
  induction lines generalizing text with
  | nil => simp [textBehind]
  | cons line lines ih =>
      have next : withLine text line = text ++ ("\n" ++ indentation line.depth ++ line.text) := by
        simp [withLine, something, String.append_assoc]
      have longer : withLine text line ≠ "" := by simp [next, something]
      rw [List.foldl_cons, ih longer, next, textBehind_cons, String.append_assoc]

/-- A text is split at one of its lines. -/
theorem written_append_cons {earlier later : List Line} {line : Line}
    (something : withLine (written earlier) line ≠ "") :
    written (earlier ++ line :: later) = withLine (written earlier) line ++ textBehind later := by
  rw [written, List.foldl_append, List.foldl_cons]
  exact foldl_withLine something later

/-- A line is split anywhere between two of its pieces. -/
theorem withLine_append (text : String) (depth : Nat) (ps qs : List Piece) :
    withLine text ⟨depth, ps ++ qs⟩ = withLine text ⟨depth, ps⟩ ++ Piece.join qs := by
  simp only [withLine, Line.text, Piece.join_append, String.append_assoc]

/-- The lines behind another are read as they are meant, and with a line feed in front they part from it. -/
theorem spelt_textBehind {lines : List Line} (h : ∀ line ∈ lines, Legible line.pieces) :
    Spelt (Text.bytes (textBehind lines)) (lineTerminals lines) ∧
      Byte.isSeam (Text.bytes (textBehind lines)).head? = true := by
  induction lines with
  | nil => exact ⟨.nil, rfl⟩
  | cons line lines ih =>
      obtain ⟨legible, others⟩ := List.forall_mem_cons.mp h
      obtain ⟨spelt, seam⟩ := ih others
      have text := Piece.spelt_of_fit spelt line.pieces (legible.fit _ seam)
      have parted := Spelt.blank (b := Byte.newline) rfl (spelt_indentation text line.depth)
      have bytes : Text.bytes (textBehind (line :: lines)) = Byte.newline ::
          (Text.bytes (indentation line.depth) ++ (Text.bytes (Piece.join line.pieces) ++
            Text.bytes (textBehind lines))) := by
        simp only [textBehind_cons, Text.bytes_append, List.append_assoc]
        rfl
      rw [bytes]
      exact ⟨parted, rfl⟩

/-!
### Parentheses taken out
-/

section

variable {t : Tree} {earlier later : List Line} {depth : Nat} {before inside behind : List Piece}

/-- Without two parentheses around operands, the text of a program has two terminals less than it takes to
    say the program. -/
theorem length_terminals_unenclosed (proper : t.isProper = true)
    (h : t.body 0 false = .ok (earlier ++ ⟨depth, before ++ Piece.parenthesized inside ++ behind⟩ :: later)) :
    (terminals (withLine (written earlier) ⟨depth, before ++ inside ++ behind⟩ ++ textBehind later)).length + 2 =
      t.extent := by
  obtain ⟨above, others⟩ := List.forall_mem_append.mp (legible_body t proper h)
  obtain ⟨line, under⟩ := List.forall_mem_cons.mp others
  obtain ⟨count, chain⟩ := terse_body t h
  obtain ⟨spelt, seam⟩ := spelt_textBehind under
  have fits := Piece.fit_unparenthesized (chain _ (List.mem_append_right _ List.mem_cons_self)) seam
    (line.fit _ seam)
  have text : Spelt (Text.bytes (withLine (written earlier) ⟨depth, before ++ inside ++ behind⟩) ++
      Text.bytes (textBehind later)) _ :=
    spelt_withLine above (spelt_written above) (Piece.spelt_of_fit spelt _ fits)
  rw [← Text.bytes_append] at text
  rw [terminals_eq_of_spelt text, ← count]
  simp only [lineTerminals_append, lineTerminals_cons, Piece.terminals_append, Piece.terminals_parenthesized,
    List.length_append, List.length_cons, List.length_nil]
  omega

end

/-- The program is written as `front`, a parenthesis in front of an operand, `inner`, a parenthesis behind an
    operand, and something more. The two parentheses around any operand stand like this. -/
def Encloses (t : Tree) (front inner : String) : Prop :=
  ∃ earlier depth before inside behind later,
    t.asProgram.body 0 false =
      .ok (earlier ++ ⟨depth, before ++ Piece.parenthesized inside ++ behind⟩ :: later) ∧
    front = withLine (written earlier) ⟨depth, before⟩ ∧ inner = Piece.join inside

end Tree

open BuildScript.Tree

/-- The source text of a program has no more terminals than any source that is read as the program. -/
theorem length_terminals_source_le {source text : String} {maxNodes : Option Nat} {ast : Ast}
    (parsed : parse source maxNodes = .ok ast) (spelt : ast.source = .ok text) :
    (terminals text).length ≤ (terminals source).length := by
  have shortest := (isProgram_of_parse parsed).extent_le
  obtain ⟨t, read, rfl⟩ := parse_eq_ok.mp parsed
  obtain ⟨body, proper⟩ := isProper_of_readTree (readTree_eq_ok_iff_size.mp read).1
  rw [source_toAst body proper] at spelt
  obtain ⟨lines, inside, ⟨⟩⟩ := bind_eq_ok.mp spelt
  have text := spelt_written (legible_body t proper inside) .nil rfl
  simp only [List.append_nil] at text
  rw [terminals_eq_of_spelt text, (terse_body t inside).count]
  rwa [tree_toAst (isWhole_of_isProper t proper)] at shortest

/-- Without the parentheses around an operand, the source text of a program is not read as the program. -/
theorem parse_unenclosed_ne {source text front inner : String} {maxNodes : Option Nat} {ast : Ast}
    (parsed : parse source maxNodes = .ok ast) (spelt : ast.source = .ok text)
    (encloses : ast.tree.Encloses front inner) :
    ∃ back, text = front ++ "(" ++ inner ++ ")" ++ back ∧
      ∀ limit other, parse (front ++ inner ++ back) limit = .ok other → other.tree ≠ ast.tree := by
  obtain ⟨t, read, rfl⟩ := parse_eq_ok.mp parsed
  obtain ⟨body, proper⟩ := isProper_of_readTree (readTree_eq_ok_iff_size.mp read).1
  obtain ⟨earlier, depth, before, inside, behind, later, h, rfl, rfl⟩ := encloses
  rw [tree_toAst (isWhole_of_isProper t proper), asProgram_of_isProper body proper] at h
  rw [source_toAst body proper, h] at spelt
  obtain rfl : written _ = text := Except.ok.inj spelt
  have shorter := length_terminals_unenclosed proper h
  rw [withLine_append, withLine_append] at shorter
  refine ⟨Piece.join behind ++ textBehind later, ?_, fun limit other again same => ?_⟩
  · rw [written_append_cons, withLine_append, withLine_append, Piece.join_parenthesized]
    · simp only [String.append_assoc]
    · simp [withLine_append, Piece.join_append, Piece.join_parenthesized]
  · have program := (isProgram_of_parse again).extent_le
    rw [same, tree_toAst (isWhole_of_isProper t proper), ← String.append_assoc] at program
    omega

/-- A difference that is multiplied keeps its parentheses, and only the ones around all of it. -/
theorem parse_unenclosed_ne_difference : ∃ ast, parse "a*((b-c)-d)" none = .ok ast ∧
    ast.source = .ok "a * (b - c - d)" ∧ ast.tree.Encloses "a * " "b - c - d" ∧
      ∀ limit other, parse "a * b - c - d" limit = .ok other → other.tree ≠ ast.tree := by
  obtain ⟨t, same⟩ : ∃ t, t = Tree.sequence [.arithmetic .mul (.name "a")
      (.arithmetic .sub (.arithmetic .sub (.name "b") (.name "c")) (.name "d"))] := ⟨_, rfl⟩
  have read : readTree none "a*((b-c)-d)" = .ok t := by
    rw [same]
    cbv
  have lines : t.body 0 false = .ok ([] ++ [⟨0, [.name "a", .space, .sign .star, .space] ++
      Piece.parenthesized [.name "b", .space, .sign .minus, .space, .name "c", .space, .sign .minus, .space,
        .name "d"] ++ []⟩]) := by
    rw [same]
    rfl
  obtain ⟨body, proper⟩ := isProper_of_readTree read
  have parsed := parse_eq_ok.mpr ⟨t, read, rfl⟩
  have spelt : (t.toAst none).source = .ok "a * (b - c - d)" := by
    rw [source_toAst body proper, lines]
    rfl
  have encloses : (t.toAst none).tree.Encloses "a * " "b - c - d" := by
    rw [tree_toAst (isWhole_of_isProper t proper), Encloses, asProgram_of_isProper body proper]
    exact ⟨_, _, _, _, _, _, lines, rfl, rfl⟩
  obtain ⟨back, text, differs⟩ := parse_unenclosed_ne parsed spelt encloses
  obtain rfl : back = "" := by simpa using congrArg String.toList text
  exact ⟨_, parsed, spelt, encloses, differs⟩

end BuildScript
