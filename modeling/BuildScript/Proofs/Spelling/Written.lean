/-
Module: BuildScript.Proofs.Spelling.Written
Layer: proofs about the spelling
Purpose: The lines that a tree is written by are legible one by one, and a line feed parts each from the
  next. So the text of a program has exactly the terminals of its lines.
Main exports: legible_statement, legible_body, spelt_written
-/
import BuildScript.Proofs.Spelling.Seams
import Mathlib.Data.List.Induction

namespace BuildScript

namespace Legible

variable {ps : List Piece}

/-- A word in front of an expression. -/
theorem headed (word : Keyword) (h : Joined ps) : Legible (.keyword word :: .space :: ps) where
  nonempty := by simp
  fit next behind := (Piece.fit_spaced rfl ps next).trans (h.fit next behind)

/-- A keyword is legible on a line of its own. -/
theorem alone (word : Keyword) : Legible [.keyword word] where
  nonempty := by simp
  fit _ behind := by simp [Piece.fit, Piece.front, Piece.isProper, Piece.parts_of_isSeam behind]

/-- A legible line is not empty. -/
theorem bytes_join_ne_nil (h : Legible ps) : Text.bytes (Piece.join ps) ≠ [] := by
  have fit := h.fit none rfl
  cases ps with
  | nil => exact absurd rfl h.nonempty
  | cons p ps =>
      simp only [Piece.fit, Bool.and_eq_true] at fit
      simp [Piece.bytes_join_cons, Piece.bytes_ne_nil fit.1.1]

end Legible

namespace Tree

/-!
### Lines
-/

theorem names_ne_nil {vars : List Tree} {names : List Piece} (nonempty : vars ≠ [])
    (h : vars.mapM plainName = .ok names) : names ≠ [] := by
  cases vars with
  | nil => contradiction
  | cons t ts =>
      rw [List.mapM_cons, bind_eq_ok] at h
      obtain ⟨p, -, h⟩ := h
      obtain ⟨ps, -, ⟨⟩⟩ := bind_eq_ok.mp h
      simp

/-- The variables of a loop are joined each by itself. -/
theorem joined_names {vars : List Tree} {names : List Piece} (proper : areProper vars = true)
    (h : vars.mapM plainName = .ok names) : ∀ ps ∈ names.map ([·]), Joined ps := by
  induction vars generalizing names with
  | nil =>
      cases h
      simp
  | cons t ts ih =>
      simp only [areProper, Bool.and_eq_true] at proper
      rw [List.mapM_cons, bind_eq_ok] at h
      obtain ⟨p, plain, h⟩ := h
      obtain ⟨ps, others, ⟨⟩⟩ := bind_eq_ok.mp h
      obtain ⟨text, rfl, rfl, free⟩ := plainName_eq_ok plain
      exact List.forall_mem_cons.mpr ⟨joined_name proper.1 free, ih proper.2 others⟩

/-- An expression by itself is on a single line, which is legible. -/
theorem legible_expression {t : Tree} {depth : Nat} {lines : List Line} (proper : t.isProper = true)
    (h : (do let pieces ← t.bare; return [⟨depth, pieces⟩] : Spelling (List Line)) = .ok lines) :
    ∀ line ∈ lines, Legible line.pieces := by
  obtain ⟨pieces, written, ⟨⟩⟩ := bind_eq_ok.mp h
  simpa using (joined_bare proper written).legible

mutual
/-- Every line of a statement is legible. -/
theorem legible_statement : ∀ (t : Tree) {depth : Nat} {lines : List Line}, t.isProper = true →
    t.statement depth = .ok lines → ∀ line ∈ lines, Legible line.pieces
  | .conditional clauses none, _, _, proper, h => by
      simp only [isProper, Bool.and_eq_true] at proper
      obtain ⟨-, first, second, all, ⟨⟩, rfl⟩ := conditional_eq_ok h
      simp only [List.append_nil, List.forall_mem_append, List.forall_mem_singleton]
      exact ⟨legible_clauses clauses proper.1 all, .alone _⟩
  | .conditional clauses (some body), _, _, proper, h => by
      simp only [isProper, isProperElse, Bool.and_eq_true] at proper
      obtain ⟨-, first, second, all, otherwise, rfl⟩ := conditional_eq_ok h
      obtain ⟨inside, inner, ⟨⟩⟩ := bind_eq_ok.mp otherwise
      have lines := legible_clauses clauses proper.1 all
      have more := legible_body body proper.2.2 inner
      simp only [List.append_assoc, List.cons_append, List.forall_mem_append, List.forall_mem_cons]
      exact ⟨lines, .alone _, more, .alone _, by simp⟩
  | .foreach vars iterable body, _, _, proper, h => by
      simp only [isProper, Bool.and_eq_true, Bool.not_eq_true', List.isEmpty_eq_false_iff] at proper
      obtain ⟨⟨⟨⟨nonempty, names_proper⟩, iterable_proper⟩, -⟩, body_proper⟩ := proper
      simp only [statement, bind_eq_ok] at h
      obtain ⟨names, plain, range, inner, inside, each, ⟨⟩⟩ := h
      have some_name : names.map ([·]) ≠ [] := by simpa using names_ne_nil nonempty plain
      have row := Joined.separated (joined_names names_proper plain) some_name
      have colon : Piece.fit [.sign .colon] (some 32) = true := rfl
      have head := row.between colon (joined_bare iterable_proper inner)
      have more := legible_body body body_proper each
      simp only [List.cons_append, List.forall_mem_append, List.forall_mem_cons]
      exact ⟨.headed _ head, more, .alone _, by simp⟩
  | .jump kind, _, _, _, h => by
      cases h
      cases kind <;> simp [Jump.piece, Legible.alone]
  | .assignment .., _, _, proper, h | .unary .., _, _, proper, h | .logical .., _, _, proper, h
  | .ternary .., _, _, proper, h | .arithmetic .., _, _, proper, h | .relational .., _, _, proper, h
  | .member .., _, _, proper, h | .index .., _, _, proper, h | .application .., _, _, proper, h
  | .name .., _, _, proper, h | .bool .., _, _, proper, h | .number .., _, _, proper, h
  | .string .., _, _, proper, h | .array .., _, _, proper, h | .dictionary .., _, _, proper, h
  | .missing .., _, _, proper, h => legible_expression proper h

/-- The lines of a body are legible. -/
theorem legible_body : ∀ (t : Tree) {depth : Nat} {after : Bool} {lines : List Line},
    t.isProper = true → t.body depth after = .ok lines → ∀ line ∈ lines, Legible line.pieces
  | .empty, _, _, _, _, h => by
      cases h
      simp
  | .sequence ts, _, _, _, proper, h => by
      simp only [isProper, Bool.and_eq_true] at proper
      exact legible_statements ts proper.2 h

/-- The lines of statements are legible. -/
theorem legible_statements : ∀ (ts : List Tree) {depth : Nat} {after : Bool} {lines : List Line},
    areProper ts = true → statementLines depth after ts = .ok lines →
    ∀ line ∈ lines, Legible line.pieces
  | [], _, _, _, _, h => by
      cases h
      simp
  | t :: ts, _, _, _, proper, h => by
      simp only [areProper, Bool.and_eq_true] at proper
      obtain ⟨first, others, one, -, rest, rfl⟩ := statementLines_cons_eq_ok h
      exact List.forall_mem_append.mpr
        ⟨legible_statement t proper.1 one, legible_statements ts proper.2 rest⟩

/-- The lines of clauses are legible, the word in front of each included. -/
theorem legible_clauses : ∀ (clauses : List Tree) {depth : Nat} {word : Keyword} {lines : List Line},
    areProper clauses = true → clauseLines depth word clauses = .ok lines →
    ∀ line ∈ lines, Legible line.pieces
  | [], _, _, _, _, h => by
      cases h
      simp
  | .clause predicate body :: rest, _, _, _, proper, h => by
      simp only [areProper, isProper, Bool.and_eq_true] at proper
      simp only [clauseLines, bind_eq_ok] at h
      obtain ⟨ps, choice, inside, inner, others, more, ⟨⟩⟩ := h
      have head := joined_bare proper.1.1.1 choice
      simp only [List.cons_append, List.forall_mem_append, List.forall_mem_cons]
      exact ⟨.headed _ head, legible_body body proper.1.2 inner, legible_clauses rest proper.2 more⟩
end

/-!
### Texts
-/

/-- Lines are written one after the other, so the last one is added to the text of the others. -/
theorem written_concat (lines : List Line) (line : Line) :
    written (lines ++ [line]) = withLine (written lines) line := by
  rw [written, List.foldl_append]
  rfl

/-- A line that is added begins with a line feed, unless it is the first, and is indented. -/
theorem bytes_withLine (text : String) (line : Line) :
    Text.bytes (withLine text line) = Text.bytes text ++ (Text.bytes (if text.isEmpty then "" else "\n") ++
      (Text.bytes (indentation line.depth) ++ Text.bytes line.text)) := by
  simp only [withLine, Text.bytes_append, List.append_assoc]

/-- Indentation is nothing but blanks. -/
theorem spelt_indentation {bytes : List UInt8} {ts : List Terminal} (spelt : Spelt bytes ts) (depth : Nat) :
    Spelt (Text.bytes (indentation depth) ++ bytes) ts := by
  induction depth with
  | zero => exact spelt
  | succ depth ih =>
      have more : indentation (depth + 1) = "  " ++ indentation depth := by
        rw [indentation, List.replicate_succ, String.join_cons]
        rfl
      rw [more, Text.bytes_append, List.append_assoc]
      exact .blank rfl (.blank rfl ih)

/-- Something is written as soon as there is a line. -/
theorem eq_nil_of_isEmpty_written {lines : List Line} (h : ∀ line ∈ lines, Legible line.pieces)
    (nothing : (written lines).isEmpty = true) : lines = [] := by
  cases lines using List.reverseRecOn with
  | nil => rfl
  | append_singleton lines line =>
      have bytes := congrArg Text.bytes (String.isEmpty_iff.mp nothing)
      rw [written_concat, bytes_withLine, Text.bytes_empty] at bytes
      simp only [List.append_eq_nil_iff] at bytes
      have legible := h line (by simp)
      exact absurd bytes.2.2.2 legible.bytes_join_ne_nil

/-- A line is read behind others that are read as their terminals in front of whatever ends them. -/
theorem spelt_withLine {lines : List Line} (h : ∀ line ∈ lines, Legible line.pieces)
    (above : ∀ {rest : List UInt8} {ts : List Terminal}, Spelt rest ts → Byte.isSeam rest.head? = true →
      Spelt (Text.bytes (written lines) ++ rest) (lineTerminals lines ++ ts))
    {line : Line} {rest : List UInt8} {ts : List Terminal} (spelt : Spelt (Text.bytes line.text ++ rest) ts) :
    Spelt (Text.bytes (withLine (written lines) line) ++ rest) (lineTerminals lines ++ ts) := by
  have indented := spelt_indentation spelt line.depth
  rw [bytes_withLine]
  simp only [List.append_assoc]
  by_cases nothing : (written lines).isEmpty = true
  · obtain rfl := eq_nil_of_isEmpty_written h nothing
    exact indented
  · have parted := Spelt.blank (b := Byte.newline) rfl indented
    rw [if_neg nothing]
    exact above parted rfl

/-- The text of legible lines is read as the terminals of the lines. -/
theorem spelt_written {lines : List Line} (h : ∀ line ∈ lines, Legible line.pieces) {rest : List UInt8}
    {ts : List Terminal} (spelt : Spelt rest ts) (seam : Byte.isSeam rest.head? = true) :
    Spelt (Text.bytes (written lines) ++ rest) (lineTerminals lines ++ ts) := by
  -- Lines are taken off at the end, since a line feed is written with the line behind it.
  induction lines using List.reverseRecOn generalizing rest ts with
  | nil => exact spelt
  | append_singleton lines line ih =>
      obtain ⟨others, last⟩ := List.forall_mem_append.mp h
      have legible := last line (by simp)
      have text := Piece.spelt_of_fit spelt line.pieces (legible.fit _ seam)
      rw [written_concat, lineTerminals_append, lineTerminals_cons, lineTerminals_nil, List.append_nil,
        List.append_assoc]
      exact spelt_withLine others (ih others) text

end Tree

end BuildScript
