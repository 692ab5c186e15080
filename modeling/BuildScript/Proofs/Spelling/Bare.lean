/-
Module: BuildScript.Proofs.Spelling.Bare
Layer: proofs about the spelling
Purpose: The expressions that have a spelling, with the pieces that they are written by. There is one rule for
  each construct, and what the writing refuses has none; so what is to be shown of all pieces that are written
  is shown rule by rule, without following the writing again.
Main exports: Tree.WrittenBy, Tree.writtenBy_of_bare
-/
import BuildScript.Tree.Spelling

namespace BuildScript

namespace Tree

/-!
### Spellings that succeed
-/

/-- A spelling in two steps succeeds when both of them do. -/
theorem bind_eq_ok {α β : Type} {x : Spelling α} {f : α → Spelling β} {b : β} :
    (x >>= f) = .ok b ↔ ∃ a, x = .ok a ∧ f a = .ok b := by
  cases x with
  | ok a => exact ⟨fun h => ⟨a, rfl, h⟩, fun ⟨_, same, h⟩ => by cases same; exact h⟩
  | error e => exact ⟨fun h => (nomatch h), fun ⟨_, same, _⟩ => (nomatch same)⟩

/-- A word that has been spelt is none of the reserved ones. -/
theorem word_eq_ok {text : String} {p : Piece} (h : word text = .ok p) :
    p = .name text ∧ isReserved text = false := by
  unfold word at h
  split at h
  · cases h
  · rename_i free
    cases h
    exact ⟨rfl, Bool.eq_false_iff.mpr free⟩

/-- Where only a name can be spelt, there is a name. -/
theorem plainName_eq_ok {t : Tree} {p : Piece} (h : t.plainName = .ok p) :
    ∃ text, t = .name text ∧ p = .name text ∧ isReserved text = false := by
  unfold plainName at h
  split at h
  · exact ⟨_, rfl, word_eq_ok h⟩
  · cases h
  · cases h
  · cases h

/-- A string that has been spelt fits into the quotes around it. -/
theorem quoted_eq_ok {content : String} {p : Piece} (h : quoted content = .ok p) :
    ∃ q : Quoting, p = .string q content ∧ q.fits content = true := by
  unfold quoted at h
  split at h
  · rename_i q found
    cases h
    exact ⟨q, rfl, List.find?_some (p := fun q : Quoting => q.fits content) found⟩
  · cases h

/-- A number that has been spelt has no sign. -/
theorem numeral_eq_ok {value : Int64} {p : Piece} (h : numeral value = .ok p) :
    p = .number value ∧ ¬ value < 0 := by
  unfold numeral at h
  split at h
  · cases h
  · rename_i positive
    cases h
    exact ⟨rfl, positive⟩

/-!
### Expressions that are written
-/

mutual

/-- The pieces write the expression, with no parentheses around it. -/
inductive WrittenBy : Tree → List Piece → Prop where
  | assignment (op : Assignment) {text : String} {value : Tree} {right : List Piece}
      (free : isReserved text = false) (second : WrittenBy value right) :
      WrittenBy (.assignment op (.name text) value) (.name text :: .space :: op.piece :: .space :: right)
  | unary (op : PrefixOp) {operand : Tree} {inner : List Piece} (first : WrittenBy operand inner) :
      WrittenBy (.unary op operand)
        (op.piece :: (if op = .not then [Piece.space] else []) ++ enclosed 10 operand inner)
  | logical (op : Connective) {lhs rhs : Tree} {left right : List Piece} (first : WrittenBy lhs left)
      (second : WrittenBy rhs right) :
      WrittenBy (.logical op lhs rhs) (enclosed (strength (.logical op lhs rhs)) lhs left ++
        between [op.piece] ++ enclosed (strength (.logical op lhs rhs) + 1) rhs right)
  | ternary {condition yes no : Tree} {choice left right : List Piece} (first : WrittenBy condition choice)
      (second : WrittenBy yes left) (third : WrittenBy no right) :
      WrittenBy (.ternary condition yes no) (enclosed 3 condition choice ++ between [.sign .question] ++ left ++
        between [.sign .colon] ++ right)
  | arithmetic (op : Arithmetic) {lhs rhs : Tree} {left right : List Piece} (first : WrittenBy lhs left)
      (second : WrittenBy rhs right) :
      WrittenBy (.arithmetic op lhs rhs) (enclosed (strength (.arithmetic op lhs rhs)) lhs left ++
        between [op.piece] ++ enclosed (strength (.arithmetic op lhs rhs) + 1) rhs right)
  | relational (op : Comparison) {lhs rhs : Tree} {left right : List Piece} (first : WrittenBy lhs left)
      (second : WrittenBy rhs right) :
      WrittenBy (.relational op lhs rhs) (enclosed (strength (.relational op lhs rhs) + 1) lhs left ++
        between op.pieces ++ enclosed (strength (.relational op lhs rhs) + 1) rhs right)
  | member {object : Tree} {text : String} {inner : List Piece} (chain : object.checkChain = .ok ())
      (first : WrittenBy object inner) (free : isReserved text = false) :
      WrittenBy (.member object (.name text)) (inner ++ [.sign .dot, .name text])
  | index {target position : Tree} {left right : List Piece} (chain : target.checkChain = .ok ())
      (first : WrittenBy target left) (second : WrittenBy position right) :
      WrittenBy (.index target position) (left ++ bracketed .leftBracket .rightBracket right)
  | application {callee : Tree} {args kwargs : List Tree} {inner : List Piece}
      {groups keywords : List (List Piece)} (chain : callee.checkChain = .ok ())
      (first : WrittenBy callee inner) (positional : AllWrittenBy args groups)
      (keyword : KeywordsWrittenBy kwargs keywords) :
      WrittenBy (.application callee args kwargs)
        (inner ++ bracketed .leftParen .rightParen (Piece.separated (groups ++ keywords)))
  | name {text : String} (free : isReserved text = false) : WrittenBy (.name text) [.name text]
  | bool (value : Bool) : WrittenBy (.bool value) [.keyword (if value then .kwTrue else .kwFalse)]
  | number {value : Int64} (positive : ¬ value < 0) : WrittenBy (.number value) [.number value]
  | string {q : Quoting} {content : String} (fits : q.fits content = true) :
      WrittenBy (.string content) [.string q content]
  | array {items : List Tree} {groups : List (List Piece)} (all : AllWrittenBy items groups) :
      WrittenBy (.array items) (bracketed .leftBracket .rightBracket (Piece.separated groups))
  | dictionary {entries : List Tree} {groups : List (List Piece)} (all : EntriesWrittenBy entries groups) :
      WrittenBy (.dictionary entries) (bracketed .leftBrace .rightBrace (Piece.separated groups))

/-- Each group of pieces writes one of the expressions. -/
inductive AllWrittenBy : List Tree → List (List Piece) → Prop where
  | nil : AllWrittenBy [] []
  | cons {t : Tree} {ts : List Tree} {ps : List Piece} {groups : List (List Piece)} (first : WrittenBy t ps)
      (others : AllWrittenBy ts groups) : AllWrittenBy (t :: ts) (ps :: groups)

/-- Each group of pieces writes one of the entries of a dictionary. -/
inductive EntriesWrittenBy : List Tree → List (List Piece) → Prop where
  | nil : EntriesWrittenBy [] []
  | cons {key value : Tree} {ts : List Tree} {left right : List Piece} {groups : List (List Piece)}
      (first : WrittenBy key left) (second : WrittenBy value right) (others : EntriesWrittenBy ts groups) :
      EntriesWrittenBy (.keyValue key value :: ts) ((left ++ [.sign .colon, .space] ++ right) :: groups)

/-- Each group of pieces writes one of the keyword arguments of a call. -/
inductive KeywordsWrittenBy : List Tree → List (List Piece) → Prop where
  | nil : KeywordsWrittenBy [] []
  | cons {text : String} {value : Tree} {ts : List Tree} {right : List Piece} {groups : List (List Piece)}
      (free : isReserved text = false) (second : WrittenBy value right)
      (others : KeywordsWrittenBy ts groups) :
      KeywordsWrittenBy (.keywordArg (.name text) value :: ts)
        ((.name text :: .sign .colon :: .space :: right) :: groups)

end

mutual

/-- The pieces that an expression is spelt with write it. -/
theorem writtenBy_of_bare : ∀ (t : Tree) {ps : List Piece}, t.bare = .ok ps → t.WrittenBy ps
  | .assignment op target value, _, h => by
      simp only [bare, bind_eq_ok] at h
      obtain ⟨p, plain, right, second, ⟨⟩⟩ := h
      obtain ⟨text, rfl, rfl, free⟩ := plainName_eq_ok plain
      exact .assignment op free (writtenBy_of_bare value second)
  | .unary op operand, _, h => by
      obtain ⟨inner, first, ⟨⟩⟩ := bind_eq_ok.mp h
      exact .unary op (writtenBy_of_bare operand first)
  | .logical op lhs rhs, _, h => by
      simp only [bare, bind_eq_ok] at h
      obtain ⟨left, first, right, second, ⟨⟩⟩ := h
      exact .logical op (writtenBy_of_bare lhs first) (writtenBy_of_bare rhs second)
  | .ternary condition yes no, _, h => by
      simp only [bare, bind_eq_ok] at h
      obtain ⟨choice, first, left, second, right, third, ⟨⟩⟩ := h
      exact .ternary (writtenBy_of_bare condition first) (writtenBy_of_bare yes second)
        (writtenBy_of_bare no third)
  | .arithmetic op lhs rhs, _, h => by
      simp only [bare, bind_eq_ok] at h
      obtain ⟨left, first, right, second, ⟨⟩⟩ := h
      exact .arithmetic op (writtenBy_of_bare lhs first) (writtenBy_of_bare rhs second)
  | .relational op lhs rhs, _, h => by
      simp only [bare, bind_eq_ok] at h
      obtain ⟨left, first, right, second, ⟨⟩⟩ := h
      exact .relational op (writtenBy_of_bare lhs first) (writtenBy_of_bare rhs second)
  | .member object field, _, h => by
      simp only [bare, bind_eq_ok] at h
      obtain ⟨⟨⟩, chain, inner, first, p, plain, ⟨⟩⟩ := h
      obtain ⟨text, rfl, rfl, free⟩ := plainName_eq_ok plain
      exact .member chain (writtenBy_of_bare object first) free
  | .index target position, _, h => by
      simp only [bare, bind_eq_ok] at h
      obtain ⟨⟨⟩, chain, left, first, right, second, ⟨⟩⟩ := h
      exact .index chain (writtenBy_of_bare target first) (writtenBy_of_bare position second)
  | .application callee args kwargs, _, h => by
      simp only [bare, bind_eq_ok] at h
      obtain ⟨⟨⟩, chain, inner, first, groups, positional, keywords, keyword, ⟨⟩⟩ := h
      exact .application chain (writtenBy_of_bare callee first) (allWrittenBy_of_bares args positional)
        (keywordsWrittenBy_of_keywordArgs kwargs keyword)
  | .name text, _, h => by
      obtain ⟨p, spelt, ⟨⟩⟩ := bind_eq_ok.mp h
      obtain ⟨rfl, free⟩ := word_eq_ok spelt
      exact .name free
  | .bool value, _, h => by
      cases h
      exact .bool value
  | .number value, _, h => by
      obtain ⟨p, spelt, ⟨⟩⟩ := bind_eq_ok.mp h
      obtain ⟨rfl, positive⟩ := numeral_eq_ok spelt
      exact .number positive
  | .string content, _, h => by
      obtain ⟨p, spelt, ⟨⟩⟩ := bind_eq_ok.mp h
      obtain ⟨q, rfl, fits⟩ := quoted_eq_ok spelt
      exact .string fits
  | .array items, _, h => by
      obtain ⟨groups, all, ⟨⟩⟩ := bind_eq_ok.mp h
      exact .array (allWrittenBy_of_bares items all)
  | .dictionary entries, _, h => by
      obtain ⟨groups, all, ⟨⟩⟩ := bind_eq_ok.mp h
      exact .dictionary (entriesWrittenBy_of_dictionaryEntries entries all)

/-- So do those of expressions in a row. -/
theorem allWrittenBy_of_bares : ∀ (ts : List Tree) {groups : List (List Piece)},
    bares ts = .ok groups → AllWrittenBy ts groups
  | [], _, h => by
      cases h
      exact .nil
  | t :: ts, _, h => by
      simp only [bares, bind_eq_ok] at h
      obtain ⟨ps, first, groups, others, ⟨⟩⟩ := h
      exact .cons (writtenBy_of_bare t first) (allWrittenBy_of_bares ts others)

/-- The pieces that the entries of a dictionary are spelt with write them. -/
theorem entriesWrittenBy_of_dictionaryEntries : ∀ (ts : List Tree) {groups : List (List Piece)},
    dictionaryEntries ts = .ok groups → EntriesWrittenBy ts groups
  | [], _, h => by
      cases h
      exact .nil
  | .keyValue key value :: rest, _, h => by
      simp only [dictionaryEntries, bind_eq_ok] at h
      obtain ⟨left, first, right, second, groups, others, ⟨⟩⟩ := h
      exact .cons (writtenBy_of_bare key first) (writtenBy_of_bare value second)
        (entriesWrittenBy_of_dictionaryEntries rest others)

/-- The pieces that keyword arguments are spelt with write them. -/
theorem keywordsWrittenBy_of_keywordArgs : ∀ (ts : List Tree) {groups : List (List Piece)},
    keywordArgs ts = .ok groups → KeywordsWrittenBy ts groups
  | [], _, h => by
      cases h
      exact .nil
  | .keywordArg key value :: rest, _, h => by
      simp only [keywordArgs, bind_eq_ok] at h
      obtain ⟨p, plain, right, second, groups, others, ⟨⟩⟩ := h
      obtain ⟨text, rfl, rfl, free⟩ := plainName_eq_ok plain
      exact .cons free (writtenBy_of_bare value second) (keywordsWrittenBy_of_keywordArgs rest others)

end

end Tree

end BuildScript
