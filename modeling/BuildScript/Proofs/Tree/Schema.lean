/-
Module: BuildScript.Proofs.Tree.Schema
Layer: proofs about trees
Purpose: The shape of the trees that sources are read as. Every part of a construct has a role, and each role
  admits some constructs only; so a body stands where bodies stand and nowhere else, a clause only in a
  conditional, and an operand is missing only on the left of an operator that is no sign and not `not`.
Main exports: Tree.isExpression, Tree.Role.admits, Tree.isWellFormed, Tree.Fits, parse_wellFormed
-/
import BuildScript.Proofs.RoundTrip
import BuildScript.Proofs.Token.Sound
import BuildScript.Proofs.Tree.Part

namespace BuildScript

namespace Tree

/-!
### The schema
-/

/-- Whether the tree is an expression. -/
def isExpression : Tree → Bool
  | .assignment .. | .unary .. | .logical .. | .ternary .. | .arithmetic .. | .relational .. => true
  | .member .. | .index .. | .application .. | .name .. | .bool .. | .number .. | .string .. => true
  | .array .. | .dictionary .. => true
  | .empty | .sequence .. | .conditional .. | .clause .. | .foreach .. | .jump .. => false
  | .keywordArg .. | .keyValue .. | .missing .. => false

/-- Whether the tree is a name with any number of members, indices and calls behind it. -/
def isChain : Tree → Bool
  | .name .. | .member .. | .index .. | .application .. => true
  | _ => false

/-- Whether a tree may play the role. -/
def Role.admits : Role → Tree → Bool
  | .body, t => t.isBody
  | .statement, .conditional .. | .statement, .foreach .. | .statement, .jump .. => true
  | .statement, t => t.isExpression
  | .clause, .clause .. => true
  | .clause, _ => false
  | .expression, t => t.isExpression
  | .leftOperand, .empty => true
  | .leftOperand, t => t.isExpression
  | .chained, t => t.isChain
  | .name, t => t.isName
  | .keywordArg, .keywordArg .. => true
  | .keywordArg, _ => false
  | .entry, .keyValue .. => true
  | .entry, _ => false

/-- Whether the construct has what it needs apart from the roles of its parts: an element, where there must
    be one, and a text or a value that a source can have. -/
def isComplete : Tree → Bool
  | .sequence statements => !statements.isEmpty
  | .conditional clauses _ => !clauses.isEmpty
  | .foreach vars _ _ => !vars.isEmpty
  | .name text => Text.isWord text
  | .number value => !decide (value < 0)
  | .string content => (Quoting.forContent? content).isSome
  | .missing _ => false
  | _ => true

/-- Whether the construct is complete and each of its parts may play its role. -/
def isWellFormed (t : Tree) : Bool :=
  t.isComplete && t.roles.all fun (role, part) => role.admits part

/-- The tree may play the role, and whatever stands in it is well-formed. -/
def Fits (role : Role) (t : Tree) : Prop :=
  role.admits t = true ∧ t.Throughout (·.isWellFormed = true)

namespace Fits

variable {role : Role} {t : Tree}

/-- A complete construct fits if its parts do. -/
theorem of_parts (admitted : role.admits t = true) (complete : t.isComplete = true)
    (parts : ∀ r ∈ t.roles, Fits r.1 r.2) : Fits role t := by
  refine ⟨admitted, throughout_iff.mpr ⟨?_, forall_mem_parts.mpr fun r member => (parts r member).2⟩⟩
  rw [isWellFormed, complete, Bool.true_and, List.all_eq_true]
  exact fun r member => (parts r member).1

section

variable (admitted : role.admits t = true) (complete : t.isComplete = true)

include admitted complete

/-- A construct without parts fits wherever it is admitted. -/
theorem of_leaf (leaf : t.roles = []) : Fits role t :=
  of_parts admitted complete (by simp [leaf])

/-- A construct with a single part. -/
theorem of_one {r : Role} {a : Tree} (one : t.roles = [(r, a)]) (inner : Fits r a) : Fits role t :=
  of_parts admitted complete (by simpa [one] using inner)

/-- A construct with two parts. -/
theorem of_two {r r' : Role} {a b : Tree} (two : t.roles = [(r, a), (r', b)]) (left : Fits r a)
    (right : Fits r' b) : Fits role t :=
  of_parts admitted complete (by simpa [two] using ⟨left, right⟩)

/-- A construct with one list of parts, which are in one role. -/
theorem of_row {r : Role} {ts : List Tree} (row : t.roles = ts.map (r, ·)) (all : ∀ u ∈ ts, Fits r u) :
    Fits role t :=
  of_parts admitted complete (by simpa [row] using all)

end

/-- What fits one role fits any other that admits it. -/
theorem of_admits {other : Role} (fits : Fits role t) (admitted : other.admits t = true) : Fits other t :=
  ⟨admitted, fits.2⟩

end Fits

/-- A chain is an expression. -/
theorem isExpression_of_isChain {t : Tree} (chain : t.isChain = true) : t.isExpression = true := by
  cases t <;> first | rfl | cases chain

theorem Fits.expression_of_chained {t : Tree} (fits : Fits .chained t) : Fits .expression t :=
  fits.of_admits (isExpression_of_isChain fits.1)

/-- A name is a chain without links. -/
theorem Fits.chained_of_name {t : Tree} (fits : Fits .name t) : Fits .chained t := by
  refine fits.of_admits ?_
  have name := fits.1
  cases t <;> first | rfl | cases name

/-- Every expression may stand as a statement. -/
theorem Fits.statement_of_expression {t : Tree} (fits : Fits .expression t) : Fits .statement t := by
  refine fits.of_admits ?_
  have expression := fits.1
  cases t <;> first | rfl | cases expression

/-- An operand that is there may stand on either side. -/
theorem Fits.leftOperand_of_expression {t : Tree} (fits : Fits .expression t) : Fits .leftOperand t := by
  refine fits.of_admits ?_
  have expression := fits.1
  cases t <;> first | rfl | cases expression

/-- A word is all that a name needs. -/
theorem fits_name {text : String} (word : Text.isWord text = true) : Fits .name (.name text) :=
  .of_leaf rfl word rfl

/-- On the left of an operator nothing at all may stand. -/
theorem fits_empty : Fits .leftOperand .empty :=
  .of_leaf rfl rfl rfl

/-!
### Constructs of fitting parts
-/

/-- Only the condition may be missing. -/
theorem fits_ternary {condition yes no : Tree} (first : Fits .leftOperand condition)
    (second : Fits .expression yes) (third : Fits .expression no) :
    Fits .expression (.ternary condition yes no) :=
  .of_parts rfl rfl (by simpa [roles] using ⟨first, second, third⟩)

/-- Of a call the arguments are expressions, each with a keyword or without. -/
theorem fits_application {callee : Tree} {args kwargs : List Tree} (called : Fits .chained callee)
    (positional : ∀ t ∈ args, Fits .expression t) (keyword : ∀ t ∈ kwargs, Fits .keywordArg t) :
    Fits .chained (.application callee args kwargs) := by
  refine .of_parts rfl rfl ?_
  simp only [roles, List.forall_mem_append, List.forall_mem_cons, List.forall_mem_map]
  exact ⟨⟨called, positional⟩, keyword⟩

/-- A conditional needs a clause, and need not have a last branch. -/
theorem fits_conditional {clauses : List Tree} {otherwise : Option Tree} (nonempty : clauses ≠ [])
    (each : ∀ t ∈ clauses, Fits .clause t) (last : ∀ t ∈ otherwise, Fits .body t) :
    Fits .statement (.conditional clauses otherwise) := by
  refine .of_parts rfl (by simpa [isComplete] using nonempty) ?_
  simp only [roles, List.forall_mem_append, List.forall_mem_map, Option.mem_toList]
  exact ⟨each, last⟩

/-- A loop needs a variable. -/
theorem fits_foreach {vars : List Tree} {iterable body : Tree} (nonempty : vars ≠ [])
    (each : ∀ t ∈ vars, Fits .name t) (first : Fits .expression iterable) (second : Fits .body body) :
    Fits .statement (.foreach vars iterable body) := by
  refine .of_parts rfl (by simpa [isComplete] using nonempty) ?_
  simp only [roles, List.forall_mem_append, List.forall_mem_map]
  exact ⟨each, by simpa using ⟨first, second⟩⟩

theorem isComplete_of_isWellFormed {t : Tree} (wellFormed : t.isWellFormed = true) :
    t.isComplete = true := by
  rw [isWellFormed, Bool.and_eq_true] at wellFormed
  exact wellFormed.1

theorem admits_of_isWellFormed {t part : Tree} {role : Role} (wellFormed : t.isWellFormed = true)
    (member : (role, part) ∈ t.roles) : role.admits part = true := by
  rw [isWellFormed, Bool.and_eq_true, List.all_eq_true] at wellFormed
  exact wellFormed.2 _ member

theorem Fits.isComplete {role : Role} {t : Tree} (fits : Fits role t) : t.isComplete = true :=
  isComplete_of_isWellFormed (throughout_iff.mp fits.2).1

/-- What fits has its parts fit. -/
theorem Fits.parts {role : Role} {t : Tree} (fits : Fits role t) : ∀ r ∈ t.roles, Fits r.1 r.2 := by
  obtain ⟨here, below⟩ := throughout_iff.mp fits.2
  exact fun r member => ⟨admits_of_isWellFormed here member, below _ (List.mem_map_of_mem member)⟩

/-- What keeps to the schema is proper all through. -/
theorem Fits.isProper {t : Tree} : ∀ {role : Role}, Fits role t → t.isProper = true := by
  induction t using inductionOnParts with
  | step t ih =>
      intro role fits
      have complete := fits.isComplete
      have parts : ∀ r ∈ t.roles, r.1.admits r.2 = true ∧ r.2.isProper = true := fun r member =>
        ⟨(fits.parts r member).1, ih _ (List.mem_map_of_mem member) (fits.parts r member)⟩
      cases t with
      | conditional clauses otherwise =>
          cases otherwise <;> simp_all [roles, Tree.isProper, areProper_iff, isProperElse, Role.admits,
            or_imp, forall_and]
      | _ => simp_all [roles, Tree.isProper, areProper_iff, Tree.isComplete, Role.admits, or_imp, forall_and]

end Tree

/-!
### Derived trees
-/

namespace Grammar

open BuildScript.Tree

/-- Where nothing is found, nothing has been taken; and what might have a sign or `not` in front of it does
    not begin with one then. -/
def Phrase.Absent : (phrase : Phrase) → (input : List Terminal) → phrase.Found → List Terminal → Prop
  | .level .chain, i, found, o | .level .primary, i, found, o => found = none → o = i
  | .level _, i, found, o => found = none → o = i ∧ Starts isPrefixOp i = false
  | .operands _ lhs, i, found, o => found = none → lhs = none ∧ o = i
  | _, _, _, _ => True

/-- The role of an element of the row. -/
def Row.FitsRole : (row : Row) → row.Element → Prop
  | .items, t => Fits .expression t
  | .entries, t => Fits .entry t
  | .arguments, .positional t => Fits .expression t
  | .arguments, .keyword t => Fits .keywordArg t

/-- Whether the phrase is an expression or a piece of one. Nothing of a statement stands in such a phrase. -/
def Phrase.isExpression : Phrase → Bool
  | .statement | .statements | .body | .clauses | .loopVariables => false
  | .level _ | .operands .. | .links _ | .element .. | .row .. | .bracketed _ => true

/-- A phrase is read as what fits its role, given that what it carries on does. -/
def Phrase.Formed : (phrase : Phrase) → (input : List Terminal) → phrase.Found → Prop
  | .level _, _, found => ∀ t, found = some t → Fits .expression t
  | .operands g lhs, i, found =>
      (∀ t, lhs = some t → Fits .expression t) →
      (lhs = none → g = .sum → Starts isPrefixOp i = false) →
      ∀ t, found = some t → Fits .expression t
  | .links object, _, t => Fits .chained object → Fits .chained t
  | .element r _, _, e => r.FitsRole e
  | .row r _, _, es | .bracketed r, _, es => ∀ e ∈ es, r.FitsRole e
  | .statement, _, found => ∀ t, found = some t → Fits .statement t
  | .statements, _, ts => ∀ t ∈ ts, Fits .statement t
  | .body, _, t => Fits .body t
  | .clauses, _, ts => ts ≠ [] ∧ ∀ t ∈ ts, Fits .clause t
  | .loopVariables, _, ts => ts ≠ [] ∧ ∀ t ∈ ts, Fits .name t

namespace Derives

variable {phrase : Phrase} {found : phrase.Found} {i o : List Terminal}

/-- A derivation takes terminals from the front only. -/
theorem suffix (h : Derives phrase i found o) : o <:+ i := by
  induction h with
  | @compared _ op _ _ _ _ _ _ _ _ left right =>
      exact right.trans ((List.suffix_append op.terminals _).trans left)
  | _ => grind [List.suffix_cons, List.suffix_refl, List.IsSuffix.trans]

/-- Where nothing is found, the terminal that comes next begins nothing. -/
theorem absent_found (h : Derives phrase i found o) : phrase.Absent i found o := by
  induction h with
  | @grouping g _ _ _ _ _ _ _ first others =>
      cases g <;> simp_all [Phrase.Absent, Grouping.operand]
  | @notCompared c => cases c <;> simp_all [Phrase.Absent, Comparing.operand]
  | _ => simp_all [Phrase.Absent]

end Derives

/-- The left of an operator fits, if there is a tree or the operator may do without one. -/
theorem fits_operandOf {lhs : Option Tree} (left : ∀ t, lhs = some t → Fits .expression t) :
    Fits .leftOperand (operandOf lhs) := by
  cases lhs with
  | none => exact fits_empty
  | some t => exact (left t rfl).leftOperand_of_expression

/-- An operator fits if its right operand does, and its left one if there is any. -/
theorem fits_node {g : Grouping} {t : Terminal} {node : Tree → Tree → Tree} {rest : List Terminal}
    (operator : g.node? t = some node) {lhs : Option Tree} {rhs : Tree}
    (left : ∀ u, lhs = some u → Fits .expression u)
    (plain : lhs = none → g = .sum → Starts isPrefixOp (t :: rest) = false)
    (right : Fits .expression rhs) : Fits .expression (node (operandOf lhs) rhs) := by
  have operand := fits_operandOf left
  -- Behind nothing, a plus or a minus is the sign of an operand, so it has a left operand here.
  have signed (sum : g = .sum) (sign : isPrefixOp t = true) : Fits .expression (operandOf lhs) := by
    cases lhs with
    | none => simp [Starts, sign] at plain; exact absurd sum plain
    | some u => exact left u rfl
  unfold Grouping.node? at operator
  split at operator <;> cases operator
  case h_3 | h_4 => exact .of_parts rfl rfl (by simp [roles, Arithmetic.isMultiplicative, signed rfl rfl, right])
  all_goals exact .of_parts rfl rfl (by simp [roles, Arithmetic.isMultiplicative, operand, right])

/-- The left of a comparison fits. Nothing can stand in front of `not in`, since nothing in front of `not` would
    make it a prefix. -/
theorem fits_comparison {op : Comparison} {lhs : Option Tree} {rhs : Tree}
    (left : ∀ t, lhs = some t → Fits .expression t) (negated : op = .notMember → lhs ≠ none)
    (right : Fits .expression rhs) : Fits .expression (.relational op (operandOf lhs) rhs) := by
  refine .of_two rfl rfl rfl ?_ right
  split_ifs with same
  · cases lhs with
    | none => exact absurd rfl (negated same)
    | some t => exact left t rfl
  · exact fits_operandOf left

/-- Sorting arguments apart leaves each in its role. -/
theorem fits_arguments {all : List (Argument Tree)} (fits : ∀ arg ∈ all, Row.arguments.FitsRole arg) :
    (∀ t ∈ all.filterMap Argument.positional?, Fits .expression t) ∧
      ∀ t ∈ all.filterMap Argument.keyword?, Fits .keywordArg t := by
  simp only [List.mem_filterMap]
  constructor
  · rintro t ⟨arg, member, found⟩
    have fits := fits arg member
    cases arg <;> cases found
    exact fits
  · rintro t ⟨arg, member, found⟩
    have fits := fits arg member
    cases arg <;> cases found
    exact fits

/-- Every one of the terminals is one that a source can have. -/
def Sound (input : List Terminal) : Prop :=
  ∀ t ∈ input, t.isSound = true

theorem Sound.tail {t : Terminal} {input : List Terminal} (sound : Sound (t :: input)) : Sound input :=
  fun u member => sound u (List.mem_cons_of_mem t member)

namespace Derives

variable {phrase : Phrase} {found : phrase.Found} {i o : List Terminal}

/-- What a derivation leaves is as sound as what it was given. -/
theorem sound (h : Derives phrase i found o) (sound : Sound i) : Sound o :=
  fun t member => sound t (h.suffix.subset member)

/-- An expression that is derived from terminals that a source can have fits its role, and so do the elements of
    rows and the links of chains. -/
theorem formed_expression (h : Derives phrase i found o) (inner : phrase.isExpression = true)
    (sound : Sound i) : phrase.Formed i found := by
  induction h with
  | absent | noChain => exact fun t same => by cases same
  | parenthesized _ ih => exact ih rfl sound.tail
  | name =>
      rintro t ⟨⟩
      exact (fits_name (sound _ List.mem_cons_self)).chained_of_name.expression_of_chained
  | truth | falsehood =>
      rintro t ⟨⟩
      exact .of_leaf rfl rfl rfl
  | number | string =>
      rintro t ⟨⟩
      exact .of_leaf rfl (sound _ List.mem_cons_self) rfl
  | array _ ih | dictionary _ ih =>
      rintro t ⟨⟩
      exact .of_row rfl rfl rfl (ih rfl sound.tail)
  | nothing => exact fun e member => by cases member
  | something _ _ ih | single _ _ ih | noPrefix _ _ ih | notCompared _ _ ih | unconditional _ _ ih
  | unassigned _ _ ih => exact ih rfl sound
  | item _ ih | positional _ _ ih => exact ih rfl sound _ rfl
  | last _ _ ih | trailing _ ih => exact List.forall_mem_singleton.mpr (ih rfl sound)
  | more element _ _ first_ih others_ih =>
      exact List.forall_mem_cons.mpr ⟨first_ih rfl sound, others_ih rfl (element.sound sound).tail⟩
  | entry left _ left_ih right_ih =>
      exact .of_two rfl rfl rfl (left_ih rfl sound _ rfl) (right_ih rfl (left.sound sound).tail _ rfl)
  | keyword left _ left_ih right_ih =>
      exact .of_two rfl rfl rfl ((left_ih rfl sound _ rfl).of_admits rfl)
        (right_ih rfl (left.sound sound).tail _ rfl)
  | chain first _ first_ih links_ih =>
      rintro t ⟨⟩
      have object : Fits .chained (.name _) := (first_ih rfl sound _ rfl).of_admits rfl
      exact (links_ih rfl (first.sound sound) object).expression_of_chained
  | chainEnd => exact id
  | member field _ field_ih links_ih =>
      intro object
      exact links_ih rfl (field.sound sound.tail)
        (.of_two rfl rfl rfl object ((field_ih rfl sound.tail _ rfl).of_admits rfl))
  | call args _ args_ih links_ih =>
      intro object
      obtain ⟨positional, keyword⟩ := fits_arguments (args_ih rfl sound.tail)
      exact links_ih rfl (args.sound sound.tail) (fits_application object positional keyword)
  | index position _ position_ih links_ih =>
      intro object
      exact links_ih rfl (position.sound sound.tail).tail
        (.of_two rfl rfl rfl object (position_ih rfl sound.tail _ rfl))
  | prefixed _ ih =>
      rintro t ⟨⟩
      exact .of_one rfl rfl rfl (ih rfl sound.tail _ rfl)
  | @grouping g _ _ _ _ _ first _ first_ih others_ih =>
      refine others_ih rfl (first.sound sound) (first_ih rfl sound) ?_
      rintro rfl rfl
      obtain ⟨rfl, plain⟩ := first.absent_found rfl
      exact plain
  | operandsEnd => exact fun fits _ => fits
  | operand operator right _ right_ih others_ih =>
      intro left plain
      refine others_ih rfl (right.sound sound.tail) ?_ (by simp)
      rintro t ⟨⟩
      exact fits_node operator left plain (right_ih rfl sound.tail _ rfl)
  | @compared _ op _ _ _ lhs _ its_level left _ left_ih right_ih =>
      rintro t ⟨⟩
      have sound_right : Sound _ := fun t member => left.sound sound t (List.mem_append_right _ member)
      refine fits_comparison (left_ih rfl sound) ?_ (right_ih rfl sound_right _ rfl)
      rintro rfl rfl
      subst its_level
      obtain ⟨rfl, plain⟩ := left.absent_found rfl
      cases plain
  | conditional left middle _ left_ih middle_ih right_ih =>
      rintro t ⟨⟩
      have sound_middle := (left.sound sound).tail
      exact fits_ternary (fits_operandOf (left_ih rfl sound)) (middle_ih rfl sound_middle _ rfl)
        (right_ih rfl (middle.sound sound_middle).tail _ rfl)
  | assigned left _ left_ih right_ih =>
      rintro t ⟨⟩
      exact .of_two rfl rfl rfl ((left_ih rfl sound _ rfl).of_admits rfl)
        (right_ih rfl (left.sound sound).tail _ rfl)
  | _ => cases inner

/-- Statements and what they are made of fit their roles, since the expressions in them do. -/
theorem formed_statement (h : Derives phrase i found o) (outer : phrase.isExpression = false)
    (sound : Sound i) : phrase.Formed i found := by
  induction h with
  | expression _ inner =>
      exact fun t same => (inner.formed_expression rfl sound t same).statement_of_expression
  | choice _ clauses_ih =>
      rintro t ⟨⟩
      obtain ⟨nonempty, clauses⟩ := clauses_ih rfl sound.tail
      exact fits_conditional nonempty clauses (by simp)
  | choiceElse first _ clauses_ih otherwise_ih =>
      rintro t ⟨⟩
      obtain ⟨nonempty, clauses⟩ := clauses_ih rfl sound.tail
      have last := otherwise_ih rfl (first.sound sound.tail).tail
      exact fits_conditional nonempty clauses fun t member => by
        cases member
        exact last
  | loop names iterable _ names_ih _ body_ih =>
      rintro t ⟨⟩
      obtain ⟨nonempty, vars⟩ := names_ih rfl sound.tail
      have sound_iterable := (names.sound sound.tail).tail
      exact fits_foreach nonempty vars (iterable.formed_expression rfl sound_iterable _ rfl)
        (body_ih rfl (iterable.sound sound_iterable))
  | stop | skip =>
      rintro t ⟨⟩
      exact .of_leaf rfl rfl rfl
  | statementsEnd => exact fun t member => by cases member
  | statements one _ one_ih rest_ih =>
      exact List.forall_mem_cons.mpr ⟨one_ih rfl sound _ rfl, rest_ih rfl (one.sound sound)⟩
  | emptyBody => exact fits_empty.of_admits rfl
  | body _ ih => exact .of_row rfl rfl rfl (ih rfl sound)
  | clause predicate _ _ _ body_ih =>
      refine ⟨List.cons_ne_nil _ _, List.forall_mem_singleton.mpr ?_⟩
      exact .of_two rfl rfl rfl (predicate.formed_expression rfl sound _ rfl)
        (body_ih rfl (predicate.sound sound))
  | clauses predicate body _ _ body_ih rest_ih =>
      have sound_body := predicate.sound sound
      refine ⟨List.cons_ne_nil _ _,
        List.forall_mem_cons.mpr ⟨?_, (rest_ih rfl (body.sound sound_body).tail).2⟩⟩
      exact .of_two rfl rfl rfl (predicate.formed_expression rfl sound _ rfl) (body_ih rfl sound_body)
  | lastVariable =>
      exact ⟨List.cons_ne_nil _ _, List.forall_mem_singleton.mpr (fits_name (sound _ List.mem_cons_self))⟩
  | nextVariable _ ih =>
      exact ⟨List.cons_ne_nil _ _,
        List.forall_mem_cons.mpr ⟨fits_name (sound _ List.mem_cons_self), (ih rfl sound.tail.tail).2⟩⟩
  | _ => cases outer

/-- What is derived from terminals that a source can have fits its role. -/
theorem formed (h : Derives phrase i found o) (sound : Sound i) : phrase.Formed i found := by
  cases kind : phrase.isExpression with
  | true => exact h.formed_expression kind sound
  | false => exact h.formed_statement kind sound

end Derives

end Grammar

/-!
### Programs that are read
-/

open Grammar BuildScript.Tree

/-- The tree of a source is a body, and well-formed throughout. -/
theorem fits_of_readTree {source : String} {t : Tree} (read : readTree none source = .ok t) :
    Fits .body t :=
  (readTree_eq_ok.mp read).formed fun _ => isSound_of_mem_terminals

/-- A program that is read is the flat form of a tree that fits a body, whatever the limit. -/
theorem exists_tree_of_parse {source : String} {maxNodes : Option Nat} {ast : Ast}
    (parsed : parse source maxNodes = .ok ast) :
    ∃ t, Fits .body t ∧ ast = t.toAst maxNodes ∧ ast.tree = t := by
  obtain ⟨t, read, rfl⟩ := parse_eq_ok.mp parsed
  obtain ⟨unlimited, -⟩ := readTree_eq_ok_iff_size.mp read
  have fits := fits_of_readTree unlimited
  exact ⟨t, fits, rfl, tree_toAst (isWhole_of_isProper t fits.isProper) maxNodes⟩

/-- The tree of a program that is read is a body, and whatever construct stands in it is complete and has only
    parts that may play their roles. -/
theorem parse_wellFormed {source : String} {maxNodes : Option Nat} {ast : Ast}
    (parsed : parse source maxNodes = .ok ast) :
    ast.tree.isBody = true ∧ ∀ x : Tree, x.OccursIn ast.tree → x.isWellFormed = true := by
  obtain ⟨t, fits, -, rfl⟩ := exists_tree_of_parse parsed
  exact fits

/-- A source with a name, a call, a body and an operand that is not there. -/
theorem parse_wellFormed_foreach : ∃ ast, parse "foreach x : xs f(* x) endforeach" none = .ok ast ∧
    ast.tree.isBody = true ∧ ∀ x : Tree, x.OccursIn ast.tree → x.isWellFormed = true := by
  have read : readTree none "foreach x : xs f(* x) endforeach" = .ok (.sequence [.foreach [.name "x"]
      (.name "xs") (.sequence [.application (.name "f") [.arithmetic .mul .empty (.name "x")] []])]) := by
    cbv
  exact ⟨_, parse_eq_ok.mpr ⟨_, read, rfl⟩, parse_wellFormed (parse_eq_ok.mpr ⟨_, read, rfl⟩)⟩

end BuildScript
