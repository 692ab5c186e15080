/-
Module: BuildScript.Proofs.Spelling.Terse
Layer: proofs about the spelling
Purpose: A tree is written in the fewest terminals that it is read from. Nor does any of the parentheses
  around operands part two pieces that would run together without it: what stands in front of one ends by
  itself, and what stands behind one begins a token anywhere. So a parenthesis can be taken out of a line,
  and the pieces are still read as what they are meant to be.
Main exports: Piece.SetApart, Piece.fit_unparenthesized, Terse, terse_bare, TerseLines, terse_body
-/
import BuildScript.Proofs.Grammar.Extent
import BuildScript.Proofs.Spelling.Seams
import Mathlib.Data.List.Chain
import Mathlib.Data.List.Forall2

namespace BuildScript

namespace Piece

/-!
### Pieces that stay apart
-/

/-- Whether the piece ends in front of everything but an equals sign. -/
def endsFreely : Piece → Bool
  | .space | .sign _ | .opening => true
  -- So does a parenthesis behind an operand, but what is in front of that need not.
  | .keyword _ | .closing | .name _ | .number _ | .string _ _ => false

/-- Whether every piece ends in front of the piece. -/
def beginsFreely : Piece → Bool
  | .space | .closing => true
  | .sign s => Byte.isSeam (Text.bytes s.text).head?
  -- So it does in front of a parenthesis before an operand, but what is behind that need not part pieces.
  | .keyword _ | .opening | .name _ | .number _ | .string _ _ => false

/-- One of the two pieces sees to it that they stay apart. -/
def SetApart (p q : Piece) : Prop :=
  p.endsFreely = true ∨ q.beginsFreely = true

/-- Whether the piece is one of the parentheses around operands. -/
def isParen : Piece → Bool
  | .opening | .closing => true
  | _ => false

/-- What a parenthesis stands between is kept apart without it. -/
theorem SetApart.without {p q x : Piece} (paren : x.isParen = true) (front : SetApart p x) (behind : SetApart x q) :
    SetApart p q := by
  cases x with
  | opening => exact .inl (front.resolve_right Bool.false_ne_true)
  | closing => exact .inr (behind.resolve_left Bool.false_ne_true)
  | _ => cases paren

/-- Taking a parenthesis out of a row leaves its neighbours apart. -/
theorem isChain_without {ps qs : List Piece} {x : Piece} (paren : x.isParen = true)
    (chain : List.IsChain SetApart (ps ++ x :: qs)) : List.IsChain SetApart (ps ++ qs) := by
  obtain ⟨front, behind, seam⟩ := List.isChain_append.mp chain
  obtain ⟨next, behind⟩ := List.isChain_cons.mp behind
  exact front.append behind fun p last q first => (seam p last x rfl).without paren (next q first)

/-- In front of pieces without their first one, which is a parenthesis, others still end. -/
theorem parts_without {p x : Piece} {qs : List Piece} {next : Option UInt8} (paren : x.isParen = true)
    (apart : SetApart p x) (behind : ∀ q ∈ qs.head?, SetApart x q) (seam : Byte.isSeam next = true)
    (ends : x.parts (front qs next) = true) : p.parts (front qs next) = true := by
  cases x with
  | opening =>
      have freely : p.endsFreely = true := apart.resolve_right Bool.false_ne_true
      cases p <;> first | exact ends | rfl | cases freely
  | closing =>
      apply parts_of_isSeam
      cases qs with
      | nil => exact seam
      | cons q qs =>
          have freely : q.beginsFreely = true := (behind q rfl).resolve_left Bool.false_ne_true
          cases q <;> first | exact freely | rfl | cases freely
  | _ => cases paren

/-- Pieces that fit together do so without a parenthesis among them. -/
theorem fit_without {ps qs : List Piece} {x : Piece} {next : Option UInt8} (paren : x.isParen = true)
    (chain : List.IsChain SetApart (ps ++ x :: qs)) (seam : Byte.isSeam next = true)
    (fits : fit (ps ++ x :: qs) next = true) : fit (ps ++ qs) next = true := by
  induction ps with
  | nil =>
      simp only [List.nil_append, fit, Bool.and_eq_true] at fits
      exact fits.2
  | cons p ps ih =>
      simp only [List.cons_append, fit, Bool.and_eq_true] at fits ⊢
      obtain ⟨⟨proper, ends⟩, others⟩ := fits
      refine ⟨⟨proper, ?_⟩, ih chain.tail others⟩
      cases ps with
      | cons q ps => exact ends
      | nil =>
          obtain ⟨apart, rest⟩ := List.isChain_cons_cons.mp chain
          simp only [List.nil_append, fit, Bool.and_eq_true] at others
          exact parts_without paren apart (List.isChain_cons.mp rest).1 seam others.1.2

/-- The same without two of them. -/
theorem fit_unparenthesized {ps qs rs : List Piece} {next : Option UInt8}
    (chain : List.IsChain SetApart (ps ++ parenthesized qs ++ rs)) (seam : Byte.isSeam next = true)
    (fits : fit (ps ++ parenthesized qs ++ rs) next = true) : fit (ps ++ qs ++ rs) next = true := by
  have opened : ps ++ parenthesized qs ++ rs = ps ++ .opening :: (qs ++ .closing :: rs) := by
    simp [parenthesized]
  rw [opened] at chain fits
  have others := isChain_without rfl chain
  have without := fit_without rfl chain seam fits
  rw [← List.append_assoc] at others without
  exact fit_without rfl others seam without

end Piece

/-!
### Pieces that are counted
-/

open Piece

/-- The pieces are `n` terminals, and stay apart without the parentheses around operands. -/
structure Terse (n : Nat) (ps : List Piece) : Prop where
  count : (Piece.terminals ps).length = n
  chain : List.IsChain SetApart ps

namespace Terse

variable {m n : Nat} {ps qs : List Piece}

theorem congr (h : Terse m ps) (same : m = n) : Terse n ps :=
  same ▸ h

theorem nil : Terse 0 [] :=
  ⟨rfl, .nil⟩

/-- A piece that is a terminal is one terminal. -/
theorem one {p : Piece} {t : Terminal} (terminal : p.terminal? = some t) : Terse 1 [p] :=
  ⟨by rw [terminals_cons terminal]; rfl, .singleton _⟩

/-- Pieces behind others that begin freely. -/
theorem append (h : Terse m ps) (h' : Terse n qs) (freely : ∀ q ∈ qs.head?, q.beginsFreely = true) :
    Terse (m + n) (ps ++ qs) where
  count := by rw [terminals_append, List.length_append, h.count, h'.count]
  chain := h.chain.append h'.chain fun _ _ q first => .inr (freely q first)

/-- A sign is one terminal more. -/
theorem sign (s : Punct) (h : Terse n ps) : Terse (n + 1) (.sign s :: ps) where
  count := by rw [terminals_sign, List.length_cons, h.count]
  chain := h.chain.cons fun _ _ => .inl rfl

/-- A space is no terminal. -/
theorem space (h : Terse n ps) : Terse n (.space :: ps) where
  count := by rw [terminals_space, h.count]
  chain := h.chain.cons fun _ _ => .inl rfl

/-- A word, a name or a sign with a space behind it. -/
theorem spaced {p : Piece} {t : Terminal} (terminal : p.terminal? = some t) (h : Terse n ps) :
    Terse (n + 1) (p :: .space :: ps) := by
  have pieces := (one terminal).append h.space fun q first => by cases first; rfl
  rwa [Nat.add_comm] at pieces

/-- Pieces between two others with spaces around them. -/
theorem between {k : Nat} {ops : List Piece} (h : Terse m ps) (operator : Terse k ops) (h' : Terse n qs) :
    Terse (m + n + k) (ps ++ Tree.between ops ++ qs) := by
  have pieces := h.append (operator.append h'.space fun q first => by cases first; rfl).space
    fun q first => by cases first; rfl
  simpa [Tree.between, Nat.add_assoc, Nat.add_comm k] using pieces

/-- Pieces between two parentheses around an operand. -/
theorem parenthesized (h : Terse n ps) : Terse (n + 2) (Piece.parenthesized ps) where
  count := by simp [h.count]
  chain := (h.chain.append (.singleton _) fun _ _ _ first => by cases first; exact .inr rfl).cons
    fun _ _ => .inl rfl

/-- Parentheses around an operand are two terminals, where there are any. -/
theorem enclosed (h : Terse n ps) (least : Nat) (t : Tree) :
    Terse (n + t.parens least) (Tree.enclosed least t ps) := by
  unfold Tree.enclosed Tree.parens
  split
  · exact h.parenthesized
  · exact h

/-- Pieces between two brackets. -/
theorem bracketed (h : Terse n ps) (left right : Punct)
    (freely : Byte.isSeam (Text.bytes right.text).head? = true) :
    Terse (n + 2) (Tree.bracketed left right ps) :=
  (h.append (one (p := .sign right) rfl) fun q first => by cases first; exact freely).sign left

/-- A key and a value with a colon between them. -/
theorem entry (h : Terse m ps) (h' : Terse n qs) :
    Terse (m + n + 1) (ps ++ .sign .colon :: .space :: qs) :=
  h.append (h'.space.sign .colon) fun q first => by cases first; rfl

end Terse

namespace Tree

/-!
### Expressions
-/

/-- Groups of pieces, each of which is as terse as its tree can be. -/
abbrev TerseRow (ts : List Tree) (groups : List (List Piece)) : Prop :=
  List.Forall₂ (fun t ps => Terse t.extent ps) ts groups

/-- The commas of a row are as many as its elements but one. -/
theorem TerseRow.separated {ts : List Tree} {groups : List (List Piece)} (h : TerseRow ts groups) :
    Terse (extents ts + (ts.length - 1)) (Piece.separated groups) := by
  induction h with
  | nil => exact Terse.nil.congr (by simp)
  | @cons t ps ts groups first others ih =>
      cases others with
      | nil =>
          rw [separated_singleton]
          exact first.congr (by simp)
      | cons second others =>
          have pieces := first.append (ih.space.sign .comma) fun q first => by cases first; rfl
          rw [separated_cons]
          refine pieces.congr ?_
          simp only [extents_cons, List.length_cons]
          omega

/-- Nothing has links behind it that would need parentheses for that. -/
theorem parens_of_checkChain {t : Tree} (chain : t.checkChain = .ok ()) : t.parens 10 = 0 := by
  cases t <;> first | rfl | cases chain

mutual

/-- An expression is written in the fewest terminals that it is read from. -/
theorem WrittenBy.terse : ∀ {t : Tree} {ps : List Piece}, t.WrittenBy ps → Terse t.extent ps
  | _, _, .assignment op _ second => by
      have operator : op.piece.terminal? = some op.terminal := by cases op <;> rfl
      refine .congr (.spaced rfl (.spaced operator second.terse)) ?_
      simp only [extent]
      omega
  | .unary op operand, _, .unary _ first => by
      have operand := first.terse.enclosed 10 operand
      cases op with
      | not => exact .spaced rfl operand
      | plus => exact operand.sign .plus
      | minus => exact operand.sign .minus
  | _, _, .logical op first second => by
      have operator : Terse 1 [op.piece] := by cases op <;> exact .one rfl
      exact (first.terse.enclosed _ _).between operator (second.terse.enclosed _ _)
  | .ternary condition _ _, _, .ternary first second third => by
      have choice := (first.terse.enclosed 3 condition).between (.one (p := .sign .question) rfl) second.terse
      have pieces := choice.between (.one (p := .sign .colon) rfl) third.terse
      exact pieces.congr (by simp only [extent]; omega)
  | _, _, .arithmetic op first second => by
      have operator : Terse 1 [op.piece] := by cases op <;> exact .one rfl
      exact (first.terse.enclosed _ _).between operator (second.terse.enclosed _ _)
  | _, _, .relational op first second => by
      have operator : Terse op.terminals.length op.pieces := by
        cases op with
        | notMember => exact .spaced rfl (.one rfl)
        | _ => exact .one rfl
      exact (first.terse.enclosed _ _).between operator (second.terse.enclosed _ _)
  | _, _, .member chain first _ => by
      refine .congr (first.terse.append ((Terse.one rfl).sign .dot) fun q head => by cases head; rfl) ?_
      simp only [extent, parens_of_checkChain chain]
  | _, _, .index chain first second => by
      have brackets := second.terse.bracketed .leftBracket .rightBracket rfl
      have pieces := first.terse.append brackets fun q head => by cases head; rfl
      exact pieces.congr (by simp only [extent, parens_of_checkChain chain]; omega)
  | .application callee args kwargs, _, .application chain first positional named => by
      have row : TerseRow (args ++ kwargs) _ := List.rel_append positional.terseRow named.terseRow
      have brackets := row.separated.bracketed .leftParen .rightParen rfl
      have pieces := first.terse.append brackets fun q head => by cases head; rfl
      refine pieces.congr ?_
      simp only [extent, parens_of_checkChain chain, extents_append, List.length_append]
      omega
  | _, _, .name _ | _, _, .bool _ | _, _, .number _ | _, _, .string _ => .one rfl
  | _, _, .array all => all.terseRow.separated.bracketed _ _ rfl
  | _, _, .dictionary all => all.terseRow.separated.bracketed _ _ rfl

/-- Expressions in a row are each written by as few terminals as it takes. -/
theorem AllWrittenBy.terseRow : ∀ {ts : List Tree} {groups : List (List Piece)},
    AllWrittenBy ts groups → TerseRow ts groups
  | _, _, .nil => .nil
  | _, _, .cons first others => .cons first.terse others.terseRow

/-- The colon of each entry is the only terminal besides those of its parts. -/
theorem EntriesWrittenBy.terseRow : ∀ {ts : List Tree} {groups : List (List Piece)},
    EntriesWrittenBy ts groups → TerseRow ts groups
  | _, _, .nil => .nil
  | _, _, .cons first second others => by
      have entry := first.terse.entry second.terse
      exact .cons (by simpa [extent] using entry) others.terseRow

/-- The colon of each keyword is the only terminal besides those of its argument. -/
theorem KeywordsWrittenBy.terseRow : ∀ {ts : List Tree} {groups : List (List Piece)},
    KeywordsWrittenBy ts groups → TerseRow ts groups
  | _, _, .nil => .nil
  | _, _, .cons _ second others =>
      .cons ((Terse.one (p := .name _) rfl).entry second.terse) others.terseRow

end

/-- An expression is spelt in the fewest terminals that it is read from. -/
theorem terse_bare {t : Tree} {ps : List Piece} (h : t.bare = .ok ps) : Terse t.extent ps :=
  (writtenBy_of_bare t h).terse

/-!
### Statements
-/

/-- The lines are `n` terminals, and the pieces of each stay apart without the parentheses around operands. -/
structure TerseLines (n : Nat) (lines : List Line) : Prop where
  count : (lineTerminals lines).length = n
  chain : ∀ line ∈ lines, List.IsChain SetApart line.pieces

namespace TerseLines

variable {m n : Nat} {lines others : List Line}

theorem congr (h : TerseLines m lines) (same : m = n) : TerseLines n lines :=
  same ▸ h

theorem nil : TerseLines 0 [] :=
  ⟨rfl, List.forall_mem_nil _⟩

theorem append (h : TerseLines m lines) (h' : TerseLines n others) : TerseLines (m + n) (lines ++ others) where
  count := by rw [lineTerminals_append, List.length_append, h.count, h'.count]
  chain := List.forall_mem_append.mpr ⟨h.chain, h'.chain⟩

/-- A line in front of others adds its own terminals. -/
theorem cons (depth : Nat) {ps : List Piece} (h : Terse m ps) (h' : TerseLines n lines) :
    TerseLines (m + n) (⟨depth, ps⟩ :: lines) where
  count := by rw [lineTerminals_cons, List.length_append, h.count, h'.count]
  chain := List.forall_mem_cons.mpr ⟨h.chain, h'.chain⟩

/-- A word on a line of its own. -/
theorem word (depth : Nat) (word : Keyword) : TerseLines 1 [⟨depth, [.keyword word]⟩] :=
  .cons depth (.one rfl) .nil

end TerseLines

/-- Loop variables are written by a name each. -/
theorem terse_names {vars : List Tree} {names : List Piece} (h : vars.mapM plainName = .ok names) :
    TerseRow vars (names.map ([·])) := by
  induction vars generalizing names with
  | nil =>
      cases h
      exact .nil
  | cons t ts ih =>
      rw [List.mapM_cons, bind_eq_ok] at h
      obtain ⟨p, plain, h⟩ := h
      obtain ⟨ps, others, ⟨⟩⟩ := bind_eq_ok.mp h
      obtain ⟨text, rfl, rfl, -⟩ := plainName_eq_ok plain
      exact .cons (.one rfl) (ih others)

/-- An expression is a line by itself and has its terminals. -/
theorem terse_expression {t : Tree} {depth : Nat} {lines : List Line}
    (h : (do let pieces ← t.bare; return [⟨depth, pieces⟩] : Spelling (List Line)) = .ok lines) :
    TerseLines t.extent lines := by
  obtain ⟨pieces, written, ⟨⟩⟩ := bind_eq_ok.mp h
  exact .cons depth (terse_bare written) .nil

mutual
/-- A statement is written in the fewest terminals that it is read from. -/
theorem terse_statement : ∀ (t : Tree) {depth : Nat} {lines : List Line}, t.statement depth = .ok lines →
    TerseLines t.extent lines
  | .conditional clauses none, depth, _, h => by
      obtain ⟨nonempty, first, second, all, ⟨⟩, rfl⟩ := conditional_eq_ok h
      have length := List.length_pos_of_ne_nil nonempty
      have lines := ((terse_clauses clauses all).append .nil).append (.word depth .kwEndif)
      exact lines.congr (by simp only [extent, extentElse]; omega)
  | .conditional clauses (some body), depth, _, h => by
      obtain ⟨nonempty, first, second, all, otherwise, rfl⟩ := conditional_eq_ok h
      obtain ⟨inside, inner, ⟨⟩⟩ := bind_eq_ok.mp otherwise
      have length := List.length_pos_of_ne_nil nonempty
      have last := TerseLines.cons depth (.one (p := .keyword .kwElse) rfl) (terse_body body inner)
      have lines := ((terse_clauses clauses all).append last).append (.word depth .kwEndif)
      exact lines.congr (by simp only [extent, extentElse]; omega)
  | .foreach vars iterable body, depth, _, h => by
      simp only [statement, bind_eq_ok] at h
      obtain ⟨names, plain, range, inner, inside, each, ⟨⟩⟩ := h
      have row := (terse_names plain).separated
      have head := Terse.spaced (p := .keyword .kwForeach) rfl
        (row.between (.one (p := .sign .colon) rfl) (terse_bare inner))
      have lines := TerseLines.cons depth head ((terse_body body each).append (.word depth .kwEndforeach))
      exact lines.congr (by simp only [extent]; omega)
  | .jump kind, _, _, h => by
      cases h
      cases kind <;> exact .word _ _
  | .assignment .., _, _, h | .unary .., _, _, h | .logical .., _, _, h | .ternary .., _, _, h
  | .arithmetic .., _, _, h | .relational .., _, _, h | .member .., _, _, h | .index .., _, _, h
  | .application .., _, _, h | .name .., _, _, h | .bool .., _, _, h | .number .., _, _, h
  | .string .., _, _, h | .array .., _, _, h | .dictionary .., _, _, h | .missing .., _, _, h =>
      terse_expression h

/-- A body has the terminals of its statements. -/
theorem terse_body : ∀ (t : Tree) {depth : Nat} {after : Bool} {lines : List Line},
    t.body depth after = .ok lines → TerseLines t.extent lines
  | .empty, _, _, _, h => by
      cases h
      exact .nil
  | .sequence ts, _, _, _, h => terse_statements ts h

/-- Statements need no terminals in between. -/
theorem terse_statements : ∀ (ts : List Tree) {depth : Nat} {after : Bool} {lines : List Line},
    statementLines depth after ts = .ok lines → TerseLines (extents ts) lines
  | [], _, _, _, h => by
      cases h
      exact .nil
  | t :: ts, _, _, _, h => by
      obtain ⟨first, others, one, -, rest, rfl⟩ := statementLines_cons_eq_ok h
      exact (terse_statement t one).append (terse_statements ts rest)

/-- Each clause has one word in front of it. -/
theorem terse_clauses : ∀ (clauses : List Tree) {depth : Nat} {word : Keyword} {lines : List Line},
    clauseLines depth word clauses = .ok lines → TerseLines (extents clauses + clauses.length) lines
  | [], _, _, _, h => by
      cases h
      exact .nil
  | .clause predicate body :: rest, depth, word, _, h => by
      simp only [clauseLines, bind_eq_ok] at h
      obtain ⟨ps, choice, inside, inner, others, more, ⟨⟩⟩ := h
      have head := Terse.spaced (p := .keyword word) rfl (terse_bare choice)
      have lines := TerseLines.cons depth head ((terse_body body inner).append (terse_clauses rest more))
      exact lines.congr (by simp only [extents, extent, List.length_cons]; omega)
end

end Tree

end BuildScript
