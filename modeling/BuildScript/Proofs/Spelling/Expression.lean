/-
Module: BuildScript.Proofs.Spelling.Expression
Layer: proofs about the spelling
Purpose: The pieces that an expression is written by are read as the expression in every place that it can
  take.
Main exports: readFrom_bare
-/
import BuildScript.Proofs.Spelling.Bare
import BuildScript.Proofs.Spelling.Place

namespace BuildScript

open Grammar

namespace Tree

/-!
### Chains
-/

namespace ReadFrom

variable {t : Tree} {ps : List Piece}

/-- A primary that is no name. -/
theorem of_primary (terminal : Leads true ps) (strength : t.strength = 10) (other : t.isName = false)
    (noChain : t.checkChain ≠ .ok ())
    (primary : ∀ r, Derives (.level .primary) (Piece.terminals ps ++ r) (some t) r) : t.ReadFrom ps :=
  of_chain terminal strength (fun r _ => .single (primary r) other) fun chain => absurd chain noChain

/-- What has more links than a name has, from what they do to a chain. -/
theorem of_link (leads : Leads true ps) (strength : t.strength = 10)
    (chained : ∀ r t' o, Derives (.links t) r t' o →
      Derives (.level .chain) (Piece.terminals ps ++ r) (some t') o) : t.ReadFrom ps :=
  of_chain leads strength (fun r stops => chained r t r (.chainEnd (stops .chain (Nat.le_refl _))))
    fun _ => chained

/-- A name is a chain without links, and whatever links there are go on from it. -/
theorem name (text : String) : ReadFrom (.name text) [.name text] :=
  of_link (.primary rfl rfl) rfl fun _ _ _ links => .chain .name links

/-- The two truth values are keywords. -/
theorem bool (value : Bool) :
    ReadFrom (.bool value) [.keyword (if value then .kwTrue else .kwFalse)] := by
  cases value with
  | true => exact of_primary (.primary rfl rfl) rfl rfl (by simp [checkChain, refused]) fun _ => .truth
  | false => exact of_primary (.primary rfl rfl) rfl rfl (by simp [checkChain, refused]) fun _ => .falsehood

theorem number (value : Int64) : ReadFrom (.number value) [.number value] :=
  of_primary (.primary rfl rfl) rfl rfl (by simp [checkChain, refused]) fun _ => .number

theorem string (q : Quoting) (content : String) : ReadFrom (.string content) [.string q content] :=
  of_primary (.primary rfl rfl) rfl rfl (by simp [checkChain, refused]) fun _ => .string

/-- The items are read in the order in which they are written. -/
theorem array {items : List Tree} {groups : List (List Piece)} (row : RowFrom .items false groups items) :
    ReadFrom (.array items) (bracketed .leftBracket .rightBracket (Piece.separated groups)) := by
  apply of_primary (.primary rfl rfl) rfl rfl (by simp [checkChain, refused])
  intro r
  simpa [Tree.bracketed, Row.close] using Derives.array (row.bracketed r)

/-- The entries are read in the order in which they are written. -/
theorem dictionary {entries : List Tree} {groups : List (List Piece)}
    (row : RowFrom .entries false groups entries) :
    ReadFrom (.dictionary entries) (bracketed .leftBrace .rightBrace (Piece.separated groups)) := by
  apply of_primary (.primary rfl rfl) rfl rfl (by simp [checkChain, refused])
  intro r
  simpa [Tree.bracketed, Row.close] using Derives.dictionary (row.bracketed r)

section

variable {object : Tree} {qs : List Piece} (h : object.ReadFrom qs) (chain : object.checkChain = .ok ())

include h chain

/-- What can have links behind it begins with a primary. -/
theorem leads_chain : Leads true qs := by
  have strength : object.strength = 10 := by
    cases object <;> first | rfl | simp [checkChain, refused] at chain
  have leads := h.leads
  rwa [strength] at leads

/-- A member is read back as the last link of its chain. -/
theorem member (text : String) :
    ReadFrom (.member object (.name text)) (qs ++ [.sign .dot, .name text]) := by
  refine of_link ((h.leads_chain chain).append _) rfl fun r t' o links => ?_
  simpa using h.chained chain _ _ _ (.member .name links)

/-- The index itself stands in brackets, so it may be any expression. -/
theorem index {position : Tree} {ps : List Piece} (inner : position.ReadFrom ps) :
    ReadFrom (.index object position) (qs ++ bracketed .leftBracket .rightBracket ps) := by
  refine of_link ((h.leads_chain chain).append _) rfl fun r t' o links => ?_
  have whole := inner.whole (.punct .rightBracket :: r) (stops_of_endsOperand rfl _ _)
  simpa [Tree.bracketed] using h.chained chain _ _ _ (.index whole links)

/-- A call is read back as the last link of its chain, with the arguments sorted as they were. -/
theorem application {args kwargs : List Tree} {groups : List (List Piece)} {all : List (Argument Tree)}
    (row : RowFrom .arguments false groups all)
    (positional : all.filterMap Argument.positional? = args)
    (keyword : all.filterMap Argument.keyword? = kwargs) :
    ReadFrom (.application object args kwargs)
      (qs ++ bracketed .leftParen .rightParen (Piece.separated groups)) := by
  refine of_link ((h.leads_chain chain).append _) rfl fun r t' o links => ?_
  subst positional keyword
  simpa [Tree.bracketed, Row.close] using h.chained chain _ _ _ (.call (row.bracketed r) links)

end

/-!
### Operators
-/

variable {a b : Tree} {left right : List Piece}

/-- The operand is put in parentheses unless it is a chain. -/
theorem unary (op : PrefixOp) (h : t.ReadFrom ps) :
    ReadFrom (.unary op t)
      (op.piece :: (if op = .not then [Piece.space] else []) ++ enclosed 10 t ps) := by
  have leads : Leads false (op.piece :: (if op = .not then [Piece.space] else []) ++ enclosed 10 t ps) := by
    cases op with
    | not => exact .not
    | plus => exact .plus
    | minus => exact .minus
  apply of_level (l := .unary) leads (by decide) (by decide) rfl (by simp) (by simp [checkChain, refused])
  intro r stops
  have operand := h.enclosed_operand (l := .chain) (by decide) (by decide) (stops.tighter (by decide))
  have derived : Derives (.level .unary)
      (op.terminal :: (Piece.terminals (enclosed 10 t ps) ++ r)) (some (.unary op t)) r :=
    .prefixed operand
  cases op with
  | not => exact derived
  | plus => exact derived
  | minus => exact derived

/-- Two operands with an operator of a level that groups to the left between them. -/
theorem grouped {g : Grouping} {op : Piece} {terminal : Terminal} {node : Tree → Tree → Tree}
    (ha : a.ReadFrom left) (hb : b.ReadFrom right) (seen : op.terminal? = some terminal)
    (operator : g.node? terminal = some node)
    (strength : (node a b).strength = (Level.grouping g).strength)
    (noChain : (node a b).checkChain ≠ .ok ()) :
    ReadFrom (node a b) (enclosed (Level.grouping g).strength a left ++ between [op] ++
      enclosed ((Level.grouping g).strength + 1) b right) := by
  refine of_grouping (((ha.leads_enclosed _).append _).append _) strength noChain
    fun r found o stops others => ?_
  have second := hb.enclosed_operand (l := g.operand) (by cases g <;> decide) (by cases g <;> decide) stops
  rw [g.strength_operand] at second
  have derived := ha.enclosed_first (g.stops_operator operator _) (.operand operator second others)
  simpa [between, Piece.terminals_cons seen] using derived

/-- Both connectives group to the left, each on a level of its own. -/
theorem logical (op : Connective) (ha : a.ReadFrom left) (hb : b.ReadFrom right) :
    ReadFrom (.logical op a b) (enclosed (strength (.logical op a b)) a left ++ between [op.piece] ++
      enclosed (strength (.logical op a b) + 1) b right) := by
  cases op with
  | and => exact grouped (g := .and) ha hb rfl rfl rfl (by simp [checkChain, refused])
  | or => exact grouped (g := .or) ha hb rfl rfl rfl (by simp [checkChain, refused])

/-- The five operators group to the left, on two levels. -/
theorem arithmetic (op : Arithmetic) (ha : a.ReadFrom left) (hb : b.ReadFrom right) :
    ReadFrom (.arithmetic op a b) (enclosed (strength (.arithmetic op a b)) a left ++
      between [op.piece] ++ enclosed (strength (.arithmetic op a b) + 1) b right) := by
  cases op with
  | add => exact grouped (g := .sum) ha hb rfl rfl rfl (by simp [checkChain, refused])
  | sub => exact grouped (g := .sum) ha hb rfl rfl rfl (by simp [checkChain, refused])
  | mul => exact grouped (g := .product) ha hb rfl rfl rfl (by simp [checkChain, refused])
  | div => exact grouped (g := .product) ha hb rfl rfl rfl (by simp [checkChain, refused])
  | mod => exact grouped (g := .product) ha hb rfl rfl rfl (by simp [checkChain, refused])

/-- Comparisons do not group at all, so either operand of the same level has parentheses. -/
theorem relational (op : Comparison) (ha : a.ReadFrom left) (hb : b.ReadFrom right) :
    ReadFrom (.relational op a b) (enclosed (strength (.relational op a b) + 1) a left ++
      between op.pieces ++ enclosed (strength (.relational op a b) + 1) b right) := by
  have own : strength (.relational op a b) = (Level.comparing (Comparing.of op)).strength := by
    cases op <;> rfl
  have next : strength (.relational op a b) + 1 = (Comparing.of op).operand.strength := by
    cases op <;> rfl
  have low : 3 ≤ (Comparing.of op).operand.strength := by cases op <;> decide
  have high : (Comparing.of op).operand.strength ≤ 10 := by cases op <;> decide
  have seen : Piece.terminals op.pieces = op.terminals := by cases op <;> rfl
  apply of_level (l := .comparing (Comparing.of op)) (((ha.leads_enclosed _).append _).append _)
    (by cases op <;> decide) (by cases op <;> decide) own (by simp) (by simp [checkChain, refused])
  intro r stops
  rw [next]
  have second := hb.enclosed_operand low high (stops.tighter (by omega))
  have ends := Comparing.stops_terminals op
    (Piece.terminals (enclosed (Comparing.of op).operand.strength b right) ++ r)
  have first := ha.enclosed_operand low high ends
  simpa [between, seen, operandOf] using Derives.compared rfl first second

/-- Only the condition may need parentheses, since both branches are full expressions. -/
theorem ternary {c : Tree} {condition : List Piece} (hc : c.ReadFrom condition) (ha : a.ReadFrom left)
    (hb : b.ReadFrom right) :
    ReadFrom (.ternary c a b) (enclosed 3 c condition ++ between [.sign .question] ++ left ++
      between [.sign .colon] ++ right) := by
  have leads := (((hc.leads_enclosed 3).append (between [.sign .question])).append left).append
    (between [.sign .colon])
  apply of_loose (leads.append right) (by simp [strength]) (by simp [checkChain, refused])
  intro r stops
  have no := hb.whole r stops
  have yes := ha.whole (.punct .colon :: (Piece.terminals right ++ r)) (stops_of_endsOperand rfl _ _)
  have first := hc.enclosed_operand (l := .grouping .or) (by decide) (by decide)
    (stops_of_isLooserOperator (t := .punct .question) (by decide)
      (Piece.terminals left ++ .punct .colon :: (Piece.terminals right ++ r)))
  have derived := Derives.conditional first yes no
  have ends : Starts isAssignment r = false := stops .assignment (Nat.le_refl _)
  simpa [between, Level.strength, operandOf] using Derives.unassigned derived ends

/-- The value needs no parentheses, since it is a full expression. -/
theorem assignment (op : Assignment) (text : String) (hb : b.ReadFrom right) :
    ReadFrom (.assignment op (.name text) b)
      (.name text :: .space :: op.piece :: .space :: right) := by
  apply of_loose (.primary rfl rfl) (by simp [strength]) (by simp [checkChain, refused])
  intro r stops
  have value := hb.whole r stops
  have ends : Stops .conditional (op.terminal :: (Piece.terminals right ++ r)) := stops_assignment op _
  have target : Derives (.level .chain) (.name text :: op.terminal :: (Piece.terminals right ++ r))
      (some (.name text)) (op.terminal :: (Piece.terminals right ++ r)) :=
    .chain .name (.chainEnd (ends .chain (by decide)))
  have derived := Derives.assigned (target.of_chain rfl (by decide) ends) value
  have seen : op.piece.terminal? = some op.terminal := by cases op <;> rfl
  simpa [Piece.terminals_cons seen] using derived

end ReadFrom

/-!
### Elements of rows
-/

/-- Behind an element stands a comma or the closing bracket, and neither is part of the element. -/
theorem stops_of_element {row : Row} {t : Terminal} (h : t = .punct .comma ∨ t = .punct row.close)
    (rest : List Terminal) : Stops .assignment (t :: rest) := by
  apply stops_of_endsOperand
  rcases h with rfl | rfl
  · rfl
  · cases row <;> rfl

namespace ReadFrom

variable {t : Tree} {ps : List Piece}

/-- An item is an expression, with nothing else around it. -/
theorem item (h : t.ReadFrom ps) (only : Bool) : ElementFrom .items only ps t where
  leads := h.leads.loose
  derives _ _ ends := .item (h.whole _ (stops_of_element ends _))

/-- The colon ends the key. -/
theorem entry {key : Tree} {qs : List Piece} (hk : key.ReadFrom qs) (h : t.ReadFrom ps) (only : Bool) :
    ElementFrom .entries only (qs ++ [.sign .colon, .space] ++ ps) (.keyValue key t) where
  leads := (hk.leads.loose.append _).append _
  derives t r ends := by
    have value := h.whole (t :: r) (stops_of_element ends r)
    have left := hk.whole (.punct .colon :: (Piece.terminals ps ++ t :: r)) (stops_of_endsOperand rfl _ _)
    simpa using Derives.entry left value

/-- What is written for a positional argument has no colon behind it, so it is not taken for a keyword. -/
theorem positional (h : t.ReadFrom ps) : ElementFrom .arguments false ps (.positional t) where
  leads := h.leads.loose
  derives _ _ ends := by
    refine .positional (h.whole _ (stops_of_element ends _)) ?_
    rcases ends with rfl | rfl <;> rfl

/-- The keyword is a name, which the colon ends. -/
theorem keyword (h : t.ReadFrom ps) (text : String) (only : Bool) :
    ElementFrom .arguments only (.name text :: .sign .colon :: .space :: ps)
      (.keyword (.keywordArg (.name text) t)) where
  leads := .primary rfl rfl
  derives t r ends := by
    have value := h.whole (t :: r) (stops_of_element ends r)
    have key := (name text).whole (.punct .colon :: (Piece.terminals ps ++ t :: r))
      (stops_of_endsOperand rfl _ _)
    simpa using Derives.keyword key value

end ReadFrom

/-!
### Whole expressions
-/

/-- Items of an array make up a row. -/
theorem rowFrom_items {ts : List Tree} {groups : List (List Piece)} (h : List.Forall₂ ReadFrom ts groups) :
    RowFrom .items false groups ts := by
  induction h with
  | nil => exact .nil
  | cons first _ ih => exact .cons (first.item false) ih

/-- Positional arguments in front of keyword arguments. -/
theorem rowFrom_arguments {ts : List Tree} {groups keywords : List (List Piece)} {kwargs : List (Argument Tree)}
    (h : List.Forall₂ ReadFrom ts groups) (others : RowFrom .arguments false keywords kwargs) :
    RowFrom .arguments false (groups ++ keywords) (ts.map .positional ++ kwargs) := by
  induction h with
  | nil => exact others
  | cons first _ ih => exact .cons first.positional ih

mutual

/-- The pieces that write an expression are read as it. -/
theorem WrittenBy.readFrom : ∀ {t : Tree} {ps : List Piece}, t.WrittenBy ps → t.ReadFrom ps
  | _, _, .assignment op _ value => .assignment op _ value.readFrom
  | _, _, .unary op operand => .unary op operand.readFrom
  | _, _, .logical op lhs rhs => .logical op lhs.readFrom rhs.readFrom
  | _, _, .ternary condition yes no => .ternary condition.readFrom yes.readFrom no.readFrom
  | _, _, .arithmetic op lhs rhs => .arithmetic op lhs.readFrom rhs.readFrom
  | _, _, .relational op lhs rhs => .relational op lhs.readFrom rhs.readFrom
  | _, _, .member chain object _ => object.readFrom.member chain _
  | _, _, .index chain target position => target.readFrom.index chain position.readFrom
  | _, _, .application chain callee args kwargs => by
      have row := rowFrom_arguments args.forall_readFrom (kwargs.rowFrom false)
      apply callee.readFrom.application chain row
      · simp [List.filterMap_append, List.filterMap_map, Function.comp_def, Argument.positional?]
      · simp [List.filterMap_append, List.filterMap_map, Function.comp_def, Argument.keyword?]
  | _, _, .name _ => .name _
  | _, _, .bool value => .bool value
  | _, _, .number _ => .number _
  | _, _, .string _ => .string _ _
  | _, _, .array items => .array (rowFrom_items items.forall_readFrom)
  | _, _, .dictionary entries => .dictionary entries.rowFrom

/-- Each of the groups is read as the expression that it writes. -/
theorem AllWrittenBy.forall_readFrom : ∀ {ts : List Tree} {groups : List (List Piece)},
    AllWrittenBy ts groups → List.Forall₂ ReadFrom ts groups
  | _, _, .nil => .nil
  | _, _, .cons first others => .cons first.readFrom others.forall_readFrom

/-- The groups that write entries are read as a row of them. -/
theorem EntriesWrittenBy.rowFrom : ∀ {ts : List Tree} {groups : List (List Piece)},
    EntriesWrittenBy ts groups → RowFrom .entries false groups ts
  | _, _, .nil => .nil
  | _, _, .cons key value others => .cons (key.readFrom.entry value.readFrom false) others.rowFrom

/-- The groups that write keyword arguments are read as a row of them. -/
theorem KeywordsWrittenBy.rowFrom : ∀ {ts : List Tree} {groups : List (List Piece)},
    KeywordsWrittenBy ts groups → ∀ only, RowFrom .arguments only groups (ts.map .keyword)
  | _, _, .nil, _ => .nil
  | _, _, .cons _ value others, only => .cons (value.readFrom.keyword _ only) (others.rowFrom true)

end

/-- The pieces of an expression are read as it. -/
theorem readFrom_bare {t : Tree} {ps : List Piece} (h : t.bare = .ok ps) : t.ReadFrom ps :=
  (writtenBy_of_bare t h).readFrom

end Tree

end BuildScript
