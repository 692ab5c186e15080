/-
Module: BuildScript.Proofs.Spelling.Seams
Layer: proofs about the spelling
Purpose: The pieces that a tree is written by fit together: each is read as the token that it is meant to be,
  whatever stands behind it. So the text of lines has exactly the terminals of their pieces.
Main exports: Piece.fit, Piece.spelt_of_fit, Legible, Joined, Joined.legible, joined_bare
-/
import BuildScript.Proofs.Spelling.Statement

namespace BuildScript

open Grammar

/-- Whether every token ends in front of a byte, `none` being the end of the text. -/
def Byte.isSeam (next : Option UInt8) : Bool :=
  isBoundary next && next != some equals

/-!
### Pieces next to each other
-/

namespace Piece

/-- The byte that pieces begin with, in front of the byte `next`. -/
def front : List Piece → Option UInt8 → Option UInt8
  | [], next => next
  | p :: _, _ => (Text.bytes p.text).head?

/-- Whether every one of the pieces is read as what it is meant to be, in front of the byte `next`. -/
def fit : List Piece → Option UInt8 → Bool
  | [], _ => true
  | p :: ps, next => p.isProper && p.parts (front ps next) && fit ps next

@[simp]
theorem front_cons (p : Piece) (ps : List Piece) (next : Option UInt8) :
    front (p :: ps) next = (Text.bytes p.text).head? :=
  rfl

/-- Two rows of pieces fit together when each fits in front of what follows it. -/
theorem fit_append (ps qs : List Piece) (next : Option UInt8) :
    fit (ps ++ qs) next = (fit ps (front qs next) && fit qs next) := by
  induction ps with
  | nil => rfl
  | cons p ps ih =>
      have same : front (ps ++ qs) next = front ps (front qs next) := by cases ps <;> rfl
      simp only [List.cons_append, fit, same, ih, Bool.and_assoc]

/-- In front of a seam every piece ends. -/
theorem parts_of_isSeam {next : Option UInt8} (seam : Byte.isSeam next = true) (p : Piece) :
    p.parts next = true := by
  simp only [Byte.isSeam, Bool.and_eq_true] at seam
  have quote : next ≠ some Byte.quote := by
    rintro rfl
    exact absurd seam.1 (by decide)
  cases p <;> simp_all [parts]

/-- A space behind a piece parts it from whatever comes next. -/
theorem fit_spaced {p : Piece} (proper : p.isProper = true) (ps : List Piece) (next : Option UInt8) :
    fit (p :: .space :: ps) next = fit ps next := by
  have seam : p.parts (front (.space :: ps) next) = true := parts_of_isSeam rfl p
  simp only [fit, proper, seam, Bool.true_and]
  rfl

/-- A proper piece is written by something. -/
theorem bytes_ne_nil {p : Piece} (proper : p.isProper = true) : Text.bytes p.text ≠ [] := by
  cases p with
  | keyword word => cases word <;> decide
  | sign s => cases s <;> decide
  | name text =>
      simp only [isProper, Bool.and_eq_true] at proper
      obtain ⟨b, bs, bytes, -⟩ := Takes.exists_cons_of_isWord proper.1
      simp [Piece.text, bytes]
  | number value =>
      simp only [isProper, Bool.not_eq_true', decide_eq_false_iff_not] at proper
      rw [Piece.text, Text.decimal, if_neg proper]
      exact (Text.repr_digits _).1
  | string q content =>
      rw [Piece.text, Quoting.bytes_wrap]
      cases q <;> simp [Quoting.markBytes]
  | _ => decide

theorem bytes_join_cons (p : Piece) (ps : List Piece) :
    Text.bytes (join (p :: ps)) = Text.bytes p.text ++ Text.bytes (join ps) := by
  rw [join, List.map_cons, String.join_cons, Text.bytes_append]
  rfl

/-- What comes first in the text of pieces is told by the first of them. -/
theorem head?_bytes_join {ps : List Piece} (rest : List UInt8) (fits : fit ps rest.head? = true) :
    (Text.bytes (join ps) ++ rest).head? = front ps rest.head? := by
  cases ps with
  | nil => rfl
  | cons p ps =>
      simp only [fit, Bool.and_eq_true] at fits
      obtain ⟨b, bs, first⟩ := List.exists_cons_of_ne_nil (bytes_ne_nil fits.1.1)
      simp [bytes_join_cons, front, first]

/-- Pieces that fit are read as what they are meant to be. -/
theorem spelt_of_fit {rest : List UInt8} {ts : List Terminal} (spelt : Spelt rest ts) :
    ∀ (ps : List Piece), fit ps rest.head? = true →
      Spelt (Text.bytes (join ps) ++ rest) (Piece.terminals ps ++ ts)
  | [], _ => spelt
  | p :: ps, fits => by
      simp only [fit, Bool.and_eq_true] at fits
      obtain ⟨⟨proper, seam⟩, fits⟩ := fits
      have others := spelt_of_fit spelt ps fits
      rw [bytes_join_cons, List.append_assoc]
      cases terminal : p.terminal? with
      | some t =>
          rw [Piece.terminals_cons terminal]
          refine .token (Piece.takes terminal proper ?_) others
          rw [head?_bytes_join rest fits]
          exact seam
      | none =>
          cases p with
          | space => exact .blank rfl others
          | _ => cases terminal

/-- What an expression can begin with extends no sign in front of it. -/
theorem front_ne_equals {p : Piece} (proper : p.isProper = true) (other : ∀ s, p ≠ .sign s) :
    (Text.bytes p.text).head? ≠ some Byte.equals := by
  cases p with
  | keyword word => cases word <;> decide
  | sign s => exact absurd rfl (other s)
  | name text =>
      simp only [isProper, Bool.and_eq_true] at proper
      obtain ⟨b, bs, bytes, start, -⟩ := Takes.exists_cons_of_isWord proper.1
      rw [Piece.text, bytes, List.head?_cons]
      rintro ⟨⟩
      cases start
  | number value =>
      simp only [isProper, Bool.not_eq_true', decide_eq_false_iff_not] at proper
      rw [Piece.text, Text.decimal, if_neg proper]
      intro begins
      have digit := (Text.repr_digits _).2 _ (List.mem_of_head? begins)
      cases digit
  | string q content =>
      rw [Piece.text, Quoting.bytes_wrap]
      cases q <;> simp [Quoting.markBytes, Byte.quote, Byte.equals]
  | _ => decide

end Piece

/-!
### Groups of pieces
-/

/-- The pieces stand on a line of their own. -/
structure Legible (ps : List Piece) : Prop where
  nonempty : ps ≠ []
  fit : ∀ next, Byte.isSeam next = true → Piece.fit ps next = true

/-- The pieces stand as an expression, or as something that begins like one. -/
structure Joined (ps : List Piece) : Prop where
  leads : Leads false ps
  fit : ∀ next, Byte.isSeam next = true → Piece.fit ps next = true

namespace Joined

variable {ps qs : List Piece}

/-- Joined pieces can be read. -/
theorem legible (h : Joined ps) : Legible ps where
  nonempty := by
    rintro rfl
    nomatch h.leads
  fit := h.fit

/-- A sign in front of the pieces is not extended by them. -/
theorem front_ne_equals (h : Joined ps) (next : Option UInt8) :
    Piece.front ps next ≠ some Byte.equals := by
  have fit := h.fit none rfl
  cases h.leads with
  | @primary _ p t _ terminal begins =>
      simp only [Piece.fit, Bool.and_eq_true] at fit
      rw [Piece.front_cons]
      by_cases sign : ∃ s, p = .sign s
      · obtain ⟨s, rfl⟩ := sign
        cases terminal
        cases s <;> first | decide | cases begins
      · exact Piece.front_ne_equals fit.1.1 fun s same => sign ⟨s, same⟩
  | plus =>
      rw [Piece.front_cons]
      decide
  | minus =>
      rw [Piece.front_cons]
      decide
  | not =>
      rw [Piece.front_cons]
      decide

/-- Pieces behind that begin at a seam. -/
theorem append (h : Joined ps) (fit : ∀ next, Byte.isSeam next = true → Piece.fit qs next = true)
    (seam : ∀ next, Byte.isSeam next = true → Byte.isSeam (Piece.front qs next) = true) :
    Joined (ps ++ qs) where
  leads := h.leads.append qs
  fit next behind := by
    rw [Piece.fit_append, h.fit _ (seam next behind), fit next behind]
    rfl

/-- An operator between its operands. -/
theorem between {ops : List Piece} (h : Joined ps) (operator : Piece.fit ops (some 32) = true)
    (h' : Joined qs) : Joined (ps ++ Tree.between ops ++ qs) where
  leads := (h.leads.append _).append qs
  fit next behind := by
    have space : (Text.bytes Piece.space.text).head? = some 32 := rfl
    have spaced (next : Option UInt8) : Piece.fit (Tree.between ops) next = true := by
      simp [Tree.between, Piece.fit, Piece.fit_append, Piece.isProper, Piece.parts, space, operator]
    have begins (next : Option UInt8) : Piece.front (Tree.between ops) next = some 32 := rfl
    rw [Piece.fit_append, Piece.fit_append, spaced, begins, h'.fit next behind, h.fit (some 32) rfl]
    rfl

end Joined

/-- Pieces between a piece that opens and one that closes. -/
theorem fit_enclosing {p q : Piece} {ps : List Piece}
    (opens : ∀ next, p.parts next = (next != some Byte.equals))
    (closes : Byte.isSeam (Text.bytes q.text).head? = true)
    (proper : p.isProper = true ∧ q.isProper = true) (inner : ps = [] ∨ Joined ps) {next : Option UInt8}
    (behind : Byte.isSeam next = true) : Piece.fit (p :: ps ++ [q]) next = true := by
  have last : Piece.fit [q] next = true := by
    simp [Piece.fit, Piece.front, proper.2, Piece.parts_of_isSeam behind]
  have apart : (Text.bytes q.text).head? ≠ some Byte.equals := by
    simp only [Byte.isSeam, Bool.and_eq_true, bne_iff_ne] at closes
    exact closes.2
  rcases inner with rfl | joined
  · simpa [Piece.fit, opens, proper.1, apart] using last
  · have fit := joined.fit _ closes
    have begins := joined.front_ne_equals (Text.bytes q.text).head?
    rw [Piece.fit_append, last]
    simp [Piece.fit, opens, proper.1, begins, fit]

namespace Joined

variable {ps qs : List Piece}

/-- Parentheses part what is in them from what is around. -/
theorem parenthesized (h : Joined ps) : Joined (Piece.parenthesized ps) where
  leads := .primary rfl rfl
  fit _ behind := fit_enclosing (fun _ => rfl) rfl ⟨rfl, rfl⟩ (.inr h) behind

/-- With parentheses or without, the pieces of an operand are joined. -/
theorem enclosed (h : Joined ps) (least : Nat) (t : Tree) : Joined (Tree.enclosed least t ps) := by
  unfold Tree.enclosed
  split
  · exact h.parenthesized
  · exact h

/-- The elements of a row with commas between them. -/
theorem separated {groups : List (List Piece)} (h : ∀ ps ∈ groups, Joined ps) (nonempty : groups ≠ []) :
    Joined (Piece.separated groups) := by
  induction groups with
  | nil => contradiction
  | cons ps groups ih =>
      have first := h ps List.mem_cons_self
      cases groups with
      | nil => rwa [Piece.separated_singleton]
      | cons qs groups =>
          have others := ih (fun qs member => h qs (List.mem_cons_of_mem _ member)) (by simp)
          rw [Piece.separated_cons]
          refine first.append (fun next behind => ?_) fun _ _ => rfl
          rw [Piece.fit_spaced rfl]
          exact others.fit next behind

/-- A single piece that begins a primary is joined. -/
theorem one {p : Piece} {t : Terminal} (terminal : p.terminal? = some t) (begins : beginsPrimary t = true)
    (proper : p.isProper = true) : Joined [p] where
  leads := .primary terminal begins
  fit next behind := by simp [Piece.fit, Piece.front, proper, Piece.parts_of_isSeam behind]

/-- A sign fits in front of an expression. -/
theorem fit_sign (h : Joined ps) (s : Punct) {next : Option UInt8} (behind : Byte.isSeam next = true) :
    Piece.fit (.sign s :: ps) next = true := by
  simp [Piece.fit, Piece.isProper, Piece.parts, h.front_ne_equals, h.fit next behind]

/-- What stands in brackets is joined, and so is a pair of brackets with nothing inside. -/
theorem bracketed {left right : Punct} (begins : beginsPrimary (.punct left) = true)
    (closes : Byte.isSeam (Text.bytes right.text).head? = true) (inner : ps = [] ∨ Joined ps) :
    Joined (Tree.bracketed left right ps) where
  leads := .primary rfl begins
  fit _ behind :=
    fit_enclosing (p := .sign left) (q := .sign right) (fun _ => rfl) closes ⟨rfl, rfl⟩ inner behind

/-- A link in brackets fits behind a chain. -/
theorem link {left right : Punct} (h : Joined ps) (opens : Byte.isSeam (Text.bytes left.text).head? = true)
    (closes : Byte.isSeam (Text.bytes right.text).head? = true) (inner : qs = [] ∨ Joined qs) :
    Joined (ps ++ Tree.bracketed left right qs) :=
  h.append (fun _ behind =>
    fit_enclosing (p := .sign left) (q := .sign right) (fun _ => rfl) closes ⟨rfl, rfl⟩ inner behind)
    fun _ _ => opens

/-- Elements with commas in between are joined, if there are any. -/
theorem row {groups : List (List Piece)} (h : ∀ ps ∈ groups, Joined ps) :
    Piece.separated groups = [] ∨ Joined (Piece.separated groups) := by
  cases groups with
  | nil => exact .inl rfl
  | cons ps groups => exact .inr (separated h (by simp))

/-- An entry of a dictionary, or a keyword argument. -/
theorem entry (h : Joined ps) (h' : Joined qs) : Joined (ps ++ .sign .colon :: .space :: qs) := by
  refine h.append (fun next behind => ?_) fun _ _ => rfl
  rw [Piece.fit_spaced rfl]
  exact h'.fit next behind

/-- A prefix fits in front of its operand, `not` with a space. -/
theorem unary {t : Tree} (op : PrefixOp) (h : Joined ps) :
    Joined (op.piece :: (if op = .not then [Piece.space] else []) ++ Tree.enclosed 10 t ps) := by
  have operand := h.enclosed 10 t
  cases op with
  | not => exact ⟨.not, fun next behind => (Piece.fit_spaced rfl _ next).trans (operand.fit next behind)⟩
  | plus => exact ⟨.plus, fun _ behind => operand.fit_sign .plus behind⟩
  | minus => exact ⟨.minus, fun _ behind => operand.fit_sign .minus behind⟩

end Joined

/-!
### Trees
-/

namespace Tree

/-- A name is a piece that fits by itself. -/
theorem joined_name {text : String} (proper : Text.isWord text = true) (free : isReserved text = false) :
    Joined [.name text] :=
  .one rfl rfl (by simp [Piece.isProper, proper, free])

mutual

/-- The pieces that write an expression fit together. -/
theorem WrittenBy.joined : ∀ {t : Tree} {ps : List Piece}, t.WrittenBy ps → t.isProper = true → Joined ps
  | _, _, .assignment op free second, proper => by
      simp only [isProper, Bool.and_eq_true] at proper
      have operator : Piece.fit [op.piece] (some 32) = true := by cases op <;> rfl
      exact (joined_name proper.1 free).between operator (second.joined proper.2)
  | _, _, .unary op first, proper => by
      simp only [isProper] at proper
      exact (first.joined proper).unary op
  | _, _, .logical op first second, proper => by
      simp only [isProper, Bool.and_eq_true] at proper
      exact ((first.joined proper.1).enclosed _ _).between (by cases op <;> rfl)
        ((second.joined proper.2).enclosed _ _)
  | .ternary condition _ _, _, .ternary first second third, proper => by
      simp only [isProper, Bool.and_eq_true] at proper
      have choice := (first.joined proper.1.1).enclosed 3 condition
      exact (choice.between rfl (second.joined proper.1.2)).between rfl (third.joined proper.2)
  | _, _, .arithmetic op first second, proper => by
      simp only [isProper, Bool.and_eq_true] at proper
      exact ((first.joined proper.1).enclosed _ _).between (by cases op <;> rfl)
        ((second.joined proper.2).enclosed _ _)
  | _, _, .relational op first second, proper => by
      simp only [isProper, Bool.and_eq_true] at proper
      exact ((first.joined proper.1).enclosed _ _).between (by cases op <;> rfl)
        ((second.joined proper.2).enclosed _ _)
  | _, _, .member _ first free, proper => by
      simp only [isProper, Bool.and_eq_true] at proper
      have field := joined_name proper.2 free
      exact (first.joined proper.1).append (fun _ behind => field.fit_sign .dot behind) fun _ _ => rfl
  | _, _, .index _ first second, proper => by
      simp only [isProper, Bool.and_eq_true] at proper
      exact (first.joined proper.1).link rfl rfl (.inr (second.joined proper.2))
  | _, _, .application _ first positional keyword, proper => by
      simp only [isProper, Bool.and_eq_true] at proper
      have groups := List.forall_mem_append.mpr
        ⟨positional.forall_joined proper.1.2, keyword.forall_joined proper.2⟩
      exact (first.joined proper.1.1).link rfl rfl (Joined.row groups)
  | _, _, .name free, proper => joined_name proper free
  | _, _, .bool true, _ => .one rfl rfl rfl
  | _, _, .bool false, _ => .one rfl rfl rfl
  | _, _, .number positive, _ => .one rfl rfl (by simpa [Piece.isProper] using positive)
  | _, _, .string fits, _ => .one rfl rfl fits
  | _, _, .array all, proper => by
      simp only [isProper] at proper
      exact .bracketed rfl rfl (Joined.row (all.forall_joined proper))
  | _, _, .dictionary all, proper => by
      simp only [isProper] at proper
      exact .bracketed rfl rfl (Joined.row (all.forall_joined proper))

/-- Expressions in a row are joined each by itself. -/
theorem AllWrittenBy.forall_joined : ∀ {ts : List Tree} {groups : List (List Piece)},
    AllWrittenBy ts groups → areProper ts = true → ∀ ps ∈ groups, Joined ps
  | _, _, .nil, _ => List.forall_mem_nil _
  | _, _, .cons first others, proper => by
      simp only [areProper, Bool.and_eq_true] at proper
      exact List.forall_mem_cons.mpr ⟨first.joined proper.1, others.forall_joined proper.2⟩

/-- The entries of a dictionary are joined each by itself. -/
theorem EntriesWrittenBy.forall_joined : ∀ {ts : List Tree} {groups : List (List Piece)},
    EntriesWrittenBy ts groups → areProper ts = true → ∀ ps ∈ groups, Joined ps
  | _, _, .nil, _ => List.forall_mem_nil _
  | _, _, .cons first second others, proper => by
      simp only [areProper, isProper, Bool.and_eq_true] at proper
      have entry := (first.joined proper.1.1).entry (second.joined proper.1.2)
      exact List.forall_mem_cons.mpr ⟨by simpa using entry, others.forall_joined proper.2⟩

/-- Keyword arguments are joined each by itself. -/
theorem KeywordsWrittenBy.forall_joined : ∀ {ts : List Tree} {groups : List (List Piece)},
    KeywordsWrittenBy ts groups → areProper ts = true → ∀ ps ∈ groups, Joined ps
  | _, _, .nil, _ => List.forall_mem_nil _
  | _, _, .cons free second others, proper => by
      simp only [areProper, isProper, Bool.and_eq_true] at proper
      have entry := (joined_name proper.1.1 free).entry (second.joined proper.1.2)
      exact List.forall_mem_cons.mpr ⟨entry, others.forall_joined proper.2⟩

end

/-- The pieces of an expression fit together. -/
theorem joined_bare {t : Tree} {ps : List Piece} (proper : t.isProper = true) (h : t.bare = .ok ps) : Joined ps :=
  (writtenBy_of_bare t h).joined proper

end Tree

end BuildScript
