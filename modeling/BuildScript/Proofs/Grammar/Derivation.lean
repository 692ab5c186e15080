/-
Module: BuildScript.Proofs.Grammar.Derivation
Layer: proofs about the grammar
Purpose: The grammar of programs as a relation between terminals and trees, without a reading. A derivation
  is greedy: a part that is optional or can be repeated is left out only in front of a terminal that
  begins no such part. An operand may be absent on the left of an operator, and is then empty. In the
  notation of the rules, `?` marks what is optional and `*` what can be repeated:

    program       statement*, an empty node if there is none
    statement     if E program (elif E program)* (else program)? endif
                | foreach name (, name)* : E program endforeach | break | continue | E
    assignment    E = conditional (assignment-operator E)?, behind a name only
    conditional   or (? E : E)?
    or, and       operand (operator operand)*, grouping to the left, and likewise sum and product
    equality      order ((== | !=) order)?, and likewise order with < <= > >= in not-in
    unary         (not | + | -)? chain
    chain         primary (. primary | (arguments) | [E])*, behind a name only
    primary       (E) | name | true | false | number | string | [items] | {entries}
Main exports: Phrase, Derives, IsProgram, Leaves, Derives.leaves
-/
import BuildScript.Grammar.Expression

namespace BuildScript

/-!
### Operators
-/

/-- The terminal that an assignment is written by. -/
def Assignment.terminal : Assignment → Terminal
  | .assign => .punct .eq
  | .add => .punct .plusEq
  | .sub => .punct .minusEq
  | .mul => .punct .starEq
  | .div => .punct .slashEq
  | .mod => .punct .percentEq

/-- The terminal that an operator in front of its operand is written by. -/
def PrefixOp.terminal : PrefixOp → Terminal
  | .not => .keyword .kwNot
  | .plus => .punct .plus
  | .minus => .punct .minus

/-- The terminals that a comparison is written by. -/
def Comparison.terminals : Comparison → List Terminal
  | .eq => [.punct .eqEq]
  | .ne => [.punct .bangEq]
  | .lt => [.punct .less]
  | .le => [.punct .lessEq]
  | .gt => [.punct .greater]
  | .ge => [.punct .greaterEq]
  | .member => [.keyword .kwIn]
  | .notMember => [.keyword .kwNot, .keyword .kwIn]

/-- No assignment operator is an invalid token. -/
@[simp] theorem Assignment.terminal_ne_invalid (op : Assignment) : op.terminal ≠ .invalid := by
  cases op <;> simp [terminal]

/-- No prefix is an invalid token. -/
@[simp] theorem PrefixOp.terminal_ne_invalid (op : PrefixOp) : op.terminal ≠ .invalid := by
  cases op <;> simp [terminal]

/-- No comparison has an invalid token in it. -/
@[simp] theorem Comparison.invalid_notMem_terminals (op : Comparison) : .invalid ∉ op.terminals := by
  cases op <;> simp [terminals]

namespace Grammar

/-!
### Levels and phrases
-/

/-- Levels whose operators can be repeated and group to the left. -/
inductive Grouping where
  | or
  | and
  | sum
  | product
deriving DecidableEq, Repr, Inhabited

/-- Levels of comparisons, which stand alone. -/
inductive Comparing where
  | equality
  | order
deriving DecidableEq, Repr, Inhabited

/-- Levels of binding strength, loosest first. -/
inductive Level where
  | assignment
  | conditional
  | grouping (g : Grouping)
  | comparing (c : Comparing)
  | unary
  | chain
  | primary
deriving DecidableEq, Repr, Inhabited

/-- The level of the operands. -/
def Grouping.operand : Grouping → Level
  | .or => .grouping .and
  | .and => .comparing .equality
  | .sum => .grouping .product
  | .product => .unary

/-- What an operator of the level makes of its operands. -/
def Grouping.node? : Grouping → Terminal → Option (Tree → Tree → Tree)
  | .or, .keyword .kwOr => some (.logical .or)
  | .and, .keyword .kwAnd => some (.logical .and)
  | .sum, .punct .plus => some (.arithmetic .add)
  | .sum, .punct .minus => some (.arithmetic .sub)
  | .product, .punct .star => some (.arithmetic .mul)
  | .product, .punct .slash => some (.arithmetic .div)
  | .product, .punct .percent => some (.arithmetic .mod)
  | _, _ => none

@[simp] theorem Grouping.node?_invalid (g : Grouping) : g.node? .invalid = none := by
  cases g <;> rfl

/-- The level of the operands. -/
def Comparing.operand : Comparing → Level
  | .equality => .comparing .order
  | .order => .grouping .sum

/-- The level at which a comparison is found. -/
def Comparing.of (op : Comparison) : Comparing :=
  if op.isEquality then .equality else .order

/-- Rows of elements with commas between them. -/
inductive Row where
  | items
  | entries
  | arguments
deriving DecidableEq, Repr, Inhabited

/-- The bracket that ends the row. -/
def Row.close : Row → Punct
  | .items => .rightBracket
  | .entries => .rightBrace
  | .arguments => .rightParen

/-- What the elements of the row are. -/
abbrev Row.Element : Row → Type
  | .items | .entries => Tree
  | .arguments => Argument Tree

/-- Whether an element is a keyword argument, behind which only such may come. -/
def Row.isKeyword : (row : Row) → row.Element → Bool
  | .items, _ | .entries, _ => false
  | .arguments, arg => arg.isKeyword

/-- The phrases of the grammar. -/
inductive Phrase where
  | level (l : Level)
  /-- Operators of a level and their right operands, behind the first operand. -/
  | operands (g : Grouping) (lhs : Option Tree)
  /-- Members, calls and subscripts behind a name. -/
  | links (object : Tree)
  /-- An element, which must be a keyword argument if one stands in front of it. -/
  | element (row : Row) (keywordsOnly : Bool)
  /-- One or more elements. -/
  | row (row : Row) (keywordsOnly : Bool)
  /-- Any number of elements, and the closing bracket. -/
  | bracketed (row : Row)
  | statement
  | statements
  | body
  | clauses
  | loopVariables

/-- What a phrase is read as. A phrase that may be absent is read as nothing then. -/
abbrev Phrase.Found : Phrase → Type
  | .level _ | .operands _ _ | .statement => Option Tree
  | .links _ | .body => Tree
  | .element r _ => r.Element
  | .row r _ | .bracketed r => List r.Element
  | .statements | .clauses | .loopVariables => List Tree

/-!
### First terminals
-/

/-- Whether the first of the terminals is one that `p` admits. -/
def Starts (p : Terminal → Bool) : List Terminal → Bool
  | [] => false
  | t :: _ => p t

/-- The terminals that begin a primary. -/
def beginsPrimary : Terminal → Bool
  | .punct .leftParen | .punct .leftBracket | .punct .leftBrace => true
  | .keyword .kwTrue | .keyword .kwFalse | .name _ | .number _ | .string _ => true
  | _ => false

/-- The terminals that begin another link of a chain. -/
def beginsLink : Terminal → Bool
  | .punct .dot | .punct .leftParen | .punct .leftBracket => true
  | _ => false

/-- The operators in front of operands. -/
def isPrefixOp : Terminal → Bool
  | .keyword .kwNot | .punct .plus | .punct .minus => true
  | _ => false

/-- The terminals that begin a comparison operator of the level. -/
def Comparing.begins : Comparing → Terminal → Bool
  | .equality, .punct .eqEq | .equality, .punct .bangEq => true
  | .order, .punct .less | .order, .punct .lessEq | .order, .punct .greater => true
  | .order, .punct .greaterEq | .order, .keyword .kwIn | .order, .keyword .kwNot => true
  | _, _ => false

/-- The assignment operators. -/
def isAssignment : Terminal → Bool
  | .punct .eq | .punct .plusEq | .punct .minusEq | .punct .starEq | .punct .slashEq => true
  | .punct .percentEq => true
  | _ => false

/-- The words that begin a statement that is no expression. -/
def beginsStatement : Terminal → Bool
  | .keyword .kwIf | .keyword .kwForeach | .keyword .kwBreak | .keyword .kwContinue => true
  | _ => false

/-!
### Derivations
-/

/-- The level of expressions. -/
abbrev expr : Phrase :=
  .level .assignment

/-- What stands on the left of an operator; an empty node if nothing does. -/
def operandOf (lhs : Option Tree) : Tree :=
  lhs.getD .empty

/-- The terminals from the front of `input` up to `rest` are the phrase, read as `found`. -/
inductive Derives : (phrase : Phrase) → (input : List Terminal) → phrase.Found →
    (rest : List Terminal) → Prop where
  /- Primaries. -/
  | absent {i} (other : Starts beginsPrimary i = false) : Derives (.level .primary) i none i
  | parenthesized {i o t} (inner : Derives expr i (some t) (.punct .rightParen :: o)) :
      Derives (.level .primary) (.punct .leftParen :: i) (some t) o
  | name {text o} : Derives (.level .primary) (.name text :: o) (some (.name text)) o
  | truth {o} : Derives (.level .primary) (.keyword .kwTrue :: o) (some (.bool true)) o
  | falsehood {o} : Derives (.level .primary) (.keyword .kwFalse :: o) (some (.bool false)) o
  | number {value o} : Derives (.level .primary) (.number (some value) :: o) (some (.number value)) o
  | string {content o} : Derives (.level .primary) (.string content :: o) (some (.string content)) o
  | array {i o items} (all : Derives (.bracketed .items) i items o) :
      Derives (.level .primary) (.punct .leftBracket :: i) (some (.array items)) o
  | dictionary {i o entries} (all : Derives (.bracketed .entries) i entries o) :
      Derives (.level .primary) (.punct .leftBrace :: i) (some (.dictionary entries)) o
  /- Rows in brackets. -/
  | nothing {row o} : Derives (.bracketed row) (.punct row.close :: o) [] o
  | something {row i o all} (other : Starts (· == .punct row.close) i = false)
      (elements : Derives (.row row false) i all (.punct row.close :: o)) :
      Derives (.bracketed row) i all o
  | last {row only i o first} (element : Derives (.element row only) i first o)
      (ends : Starts (· == .punct .comma) o = false) : Derives (.row row only) i [first] o
  | trailing {row only i o first}
      (element : Derives (.element row only) i first (.punct .comma :: .punct row.close :: o)) :
      Derives (.row row only) i [first] (.punct row.close :: o)
  | more {row only i m o first others}
      (element : Derives (.element row only) i first (.punct .comma :: m))
      (goes_on : Starts (· == .punct row.close) m = false)
      (elements : Derives (.row row (row.isKeyword first)) m others o) :
      Derives (.row row only) i (first :: others) o
  | item {only i o t} (item : Derives expr i (some t) o) : Derives (.element .items only) i t o
  | entry {only i m o key value} (left : Derives expr i (some key) (.punct .colon :: m))
      (right : Derives expr m (some value) o) :
      Derives (.element .entries only) i (.keyValue key value) o
  | positional {i o t} (value : Derives expr i (some t) o)
      (plain : Starts (· == .punct .colon) o = false) :
      Derives (.element .arguments false) i (.positional t) o
  | keyword {only i m o text value} (key : Derives expr i (some (.name text)) (.punct .colon :: m))
      (right : Derives expr m (some value) o) :
      Derives (.element .arguments only) i (.keyword (.keywordArg (.name text) value)) o
  /- Chains. -/
  | noChain {i o} (first : Derives (.level .primary) i none o) : Derives (.level .chain) i none o
  | single {i o t} (first : Derives (.level .primary) i (some t) o) (other : t.isName = false) :
      Derives (.level .chain) i (some t) o
  | chain {i m o text t} (first : Derives (.level .primary) i (some (.name text)) m)
      (links : Derives (.links (.name text)) m t o) : Derives (.level .chain) i (some t) o
  | chainEnd {object i} (ends : Starts beginsLink i = false) : Derives (.links object) i object i
  | member {object i m o text t} (field : Derives (.level .primary) i (some (.name text)) m)
      (links : Derives (.links (.member object (.name text))) m t o) :
      Derives (.links object) (.punct .dot :: i) t o
  | call {object i m o all t} (args : Derives (.bracketed .arguments) i all m)
      (links : Derives (.links (.application object (all.filterMap Argument.positional?)
        (all.filterMap Argument.keyword?))) m t o) :
      Derives (.links object) (.punct .leftParen :: i) t o
  | index {object i m o position t}
      (inner : Derives expr i (some position) (.punct .rightBracket :: m))
      (links : Derives (.links (.index object position)) m t o) :
      Derives (.links object) (.punct .leftBracket :: i) t o
  /- Operators. -/
  | noPrefix {i o found} (plain : Starts isPrefixOp i = false)
      (operand : Derives (.level .chain) i found o) : Derives (.level .unary) i found o
  | prefixed {op i o t} (operand : Derives (.level .chain) i (some t) o) :
      Derives (.level .unary) (op.terminal :: i) (some (.unary op t)) o
  | grouping {g i m o first found} (operand : Derives (.level (Grouping.operand g)) i first m)
      (others : Derives (.operands g first) m found o) : Derives (.level (.grouping g)) i found o
  | operandsEnd {g lhs i} (ends : Starts (fun t => (Grouping.node? g t).isSome) i = false) :
      Derives (.operands g lhs) i lhs i
  | operand {g lhs t node i m o rhs found} (operator : Grouping.node? g t = some node)
      (right : Derives (.level (Grouping.operand g)) i (some rhs) m)
      (others : Derives (.operands g (some (node (operandOf lhs) rhs))) m found o) :
      Derives (.operands g lhs) (t :: i) found o
  | notCompared {c i o found} (operand : Derives (.level (Comparing.operand c)) i found o)
      (ends : Starts c.begins o = false) : Derives (.level (.comparing c)) i found o
  | compared {c op i m o lhs rhs} (its_level : Comparing.of op = c)
      (left : Derives (.level (Comparing.operand c)) i lhs (op.terminals ++ m))
      (right : Derives (.level (Comparing.operand c)) m (some rhs) o) :
      Derives (.level (.comparing c)) i (some (.relational op (operandOf lhs) rhs)) o
  | unconditional {i o found} (operand : Derives (.level (.grouping .or)) i found o)
      (ends : Starts (· == .punct .question) o = false) : Derives (.level .conditional) i found o
  | conditional {i m n o condition yes no}
      (left : Derives (.level (.grouping .or)) i condition (.punct .question :: m))
      (middle : Derives expr m (some yes) (.punct .colon :: n)) (right : Derives expr n (some no) o) :
      Derives (.level .conditional) i (some (.ternary (operandOf condition) yes no)) o
  | unassigned {i o found} (operand : Derives (.level .conditional) i found o)
      (ends : Starts isAssignment o = false) : Derives (.level .assignment) i found o
  | assigned {op i m o text value}
      (target : Derives (.level .conditional) i (some (.name text)) (Assignment.terminal op :: m))
      (right : Derives expr m (some value) o) :
      Derives (.level .assignment) i (some (.assignment op (.name text) value)) o
  /- Statements. -/
  | expression {i o found} (other : Starts beginsStatement i = false) (inner : Derives expr i found o) :
      Derives .statement i found o
  | choice {i o cs} (clauses : Derives .clauses i cs (.keyword .kwEndif :: o)) :
      Derives .statement (.keyword .kwIf :: i) (some (.conditional cs none)) o
  | choiceElse {i m o cs b} (clauses : Derives .clauses i cs (.keyword .kwElse :: m))
      (otherwise : Derives .body m b (.keyword .kwEndif :: o)) :
      Derives .statement (.keyword .kwIf :: i) (some (.conditional cs (some b))) o
  | loop {i m n o vars iterable b} (names : Derives .loopVariables i vars (.punct .colon :: m))
      (inner : Derives expr m (some iterable) n) (body : Derives .body n b (.keyword .kwEndforeach :: o)) :
      Derives .statement (.keyword .kwForeach :: i) (some (.foreach vars iterable b)) o
  | stop {o} : Derives .statement (.keyword .kwBreak :: o) (some (.jump .stop)) o
  | skip {o} : Derives .statement (.keyword .kwContinue :: o) (some (.jump .skip)) o
  | statementsEnd {i o} (none : Derives .statement i none o) : Derives .statements i [] o
  | statements {i m o first others} (one : Derives .statement i (some first) m)
      (rest : Derives .statements m others o) : Derives .statements i (first :: others) o
  | emptyBody {i o} (all : Derives .statements i [] o) : Derives .body i .empty o
  | body {i o first others} (all : Derives .statements i (first :: others) o) :
      Derives .body i (.sequence (first :: others)) o
  | clause {i m o predicate b} (inner : Derives expr i (some predicate) m) (body : Derives .body m b o)
      (ends : Starts (· == .keyword .kwElif) o = false) :
      Derives .clauses i [.clause predicate b] o
  | clauses {i m n o predicate b others} (inner : Derives expr i (some predicate) m)
      (body : Derives .body m b (.keyword .kwElif :: n)) (rest : Derives .clauses n others o) :
      Derives .clauses i (.clause predicate b :: others) o
  | lastVariable {text o} (ends : Starts (· == .punct .comma) o = false) :
      Derives .loopVariables (.name text :: o) [.name text] o
  | nextVariable {text i o others} (rest : Derives .loopVariables i others o) :
      Derives .loopVariables (.name text :: .punct .comma :: i) (.name text :: others) o

/-- The terminals, as a whole, are the program `t`. -/
def IsProgram (input : List Terminal) (t : Tree) : Prop :=
  Derives .body input t []

/-!
### Absent expressions
-/

/-- The operators that can stand behind an operand. -/
def isOperator (t : Terminal) : Bool :=
  [Grouping.or, .and, .sum, .product].any (fun g => (g.node? t).isSome) ||
    [Comparing.equality, .order].any (·.begins t) || t == .punct .question || isAssignment t

/-- The terminals that an expression can begin with; operators are among them, since what stands on
    their left may be absent. -/
def beginsExpression (t : Terminal) : Bool :=
  beginsPrimary t || isPrefixOp t || isOperator t

/-- In front of a terminal that begins no expression, none is found at any level. -/
theorem Derives.none_of_other {i : List Terminal} (other : Starts beginsExpression i = false)
    (l : Level) : Derives (.level l) i none i := by
  have without {p : Terminal → Bool} (h : ∀ t, p t = true → beginsExpression t = true) :
      Starts p i = false := by
    cases i with
    | nil => rfl
    | cons t rest =>
        simp only [Starts] at other ⊢
        exact Bool.eq_false_iff.mpr fun begins => by simp [h t begins] at other
  have grouping (g : Grouping) (operand : Derives (.level g.operand) i none i) :
      Derives (.level (.grouping g)) i none i :=
    .grouping operand (.operandsEnd (without fun t h => by
      cases g <;> simp [beginsExpression, isOperator, h]))
  have comparing (c : Comparing) (operand : Derives (.level c.operand) i none i) :
      Derives (.level (.comparing c)) i none i :=
    .notCompared operand (without fun t h => by cases c <;> simp [beginsExpression, isOperator, h])
  have primary : Derives (.level .primary) i none i :=
    .absent (without fun t h => by simp [beginsExpression, h])
  have chain : Derives (.level .chain) i none i := .noChain primary
  have unary : Derives (.level .unary) i none i :=
    .noPrefix (without fun t h => by simp [beginsExpression, h]) chain
  have product := grouping .product unary
  have sum := grouping .sum product
  have order := comparing .order sum
  have equality := comparing .equality order
  have and := grouping .and equality
  have or := grouping .or and
  have conditional : Derives (.level .conditional) i none i :=
    .unconditional or (without fun t h => by
      simp only [beq_iff_eq] at h
      simp [beginsExpression, isOperator, h])
  have assignment : Derives (.level .assignment) i none i :=
    .unassigned conditional (without fun t h => by simp [beginsExpression, isOperator, h])
  cases l with
  | assignment => exact assignment
  | conditional => exact conditional
  | grouping g => cases g <;> assumption
  | comparing c => cases c <;> assumption
  | unary => exact unary
  | chain => exact chain
  | primary => exact primary

/-!
### What a derivation uses up
-/

/-- Where `rest` is left of `input`, nothing but tokens has been read. -/
def Leaves (input rest : List Terminal) : Prop :=
  ∃ taken, input = taken ++ rest ∧ .invalid ∉ taken

namespace Leaves

variable {i m o taken : List Terminal} {t : Terminal}

@[grind ←]
theorem refl (i : List Terminal) : Leaves i i :=
  ⟨[], rfl, List.not_mem_nil⟩

@[grind →]
theorem trans (h : Leaves i m) (h' : Leaves m o) : Leaves i o := by
  obtain ⟨first, rfl, tokens⟩ := h
  obtain ⟨second, rfl, tokens'⟩ := h'
  exact ⟨first ++ second, (List.append_assoc _ _ _).symm, by simp [tokens, tokens']⟩

/-- Taking tokens from the front leaves the rest. -/
theorem append (tokens : .invalid ∉ taken) : Leaves (taken ++ o) o :=
  ⟨taken, rfl, tokens⟩

theorem head (token : t ≠ .invalid) : Leaves (t :: o) o :=
  ⟨[t], rfl, by simpa using token.symm⟩

@[grind ←]
theorem cons (h : Leaves i o) (token : t ≠ .invalid) : Leaves (t :: i) o :=
  (head token).trans h

/-- Taking one more token leaves one less. -/
@[grind →]
theorem of_cons (h : Leaves i (t :: o)) (token : t ≠ .invalid) : Leaves i o :=
  h.trans (head token)

/-- Between a place and one behind it that is reached over tokens, all are tokens. -/
theorem of_suffix (h : Leaves i o) (before : m <:+ i) (behind : o <:+ m) :
    Leaves i m := by
  obtain ⟨taken, rfl⟩ := before
  obtain ⟨more, rfl⟩ := behind
  obtain ⟨all, whole, tokens⟩ := h
  rw [← List.append_assoc] at whole
  obtain rfl := List.append_cancel_right whole
  exact ⟨taken, rfl, fun invalid => tokens (List.mem_append_left more invalid)⟩

/-- Source that is no token stays. -/
theorem invalid_mem (h : Leaves i o) (invalid : .invalid ∈ i) : .invalid ∈ o := by
  obtain ⟨taken, rfl, tokens⟩ := h
  exact (List.mem_append.mp invalid).resolve_left tokens

end Leaves

/-- Fewest terminals that a phrase takes when it is read as `found`. -/
def Phrase.least : (phrase : Phrase) → (found : phrase.Found) → Nat
  | .level _, found | .statement, found => found.elim 0 fun _ => 1
  | .operands _ none, some _ => 1
  | .operands _ _, _ | .links _, _ | .statements, _ | .body, _ => 0
  | .element _ _, _ | .row _ _, _ | .bracketed _, _ | .clauses, _ | .loopVariables, _ => 1

namespace Derives

variable {phrase : Phrase} {found : phrase.Found} {i o : List Terminal}

/-- A derivation takes terminals from the front only, and at least as many as its phrase has. -/
theorem length_add_least (h : Derives phrase i found o) :
    o.length + phrase.least found ≤ i.length := by
  induction h with
  | @grouping _ _ _ _ first found _ _ first_taken others_taken =>
      cases first <;> cases found <;> simp only [Phrase.least, Option.elim] at * <;> omega
  | @operand g lhs _ _ i _ o _ found _ _ _ right_taken others_taken =>
      have least_le : Phrase.least (.operands g lhs) found ≤ 1 := by
        cases lhs <;> cases found <;> simp [Phrase.least]
      have right_taken : _ + 1 ≤ i.length := right_taken
      rw [List.length_cons]
      omega
  | _ => simp_all [Phrase.least] <;> omega

/-- A derivation never adds terminals. -/
theorem length_le (h : Derives phrase i found o) : o.length ≤ i.length := by
  have taken := h.length_add_least
  omega

/-- A level at which something is found takes a terminal. -/
theorem length_lt {l : Level} {t : Tree} (h : Derives (.level l) i (some t) o) :
    o.length < i.length :=
  h.length_add_least

/-- Nothing is derived from source that is no token. -/
@[grind →]
theorem leaves (h : Derives phrase i found o) : Leaves i o := by
  induction h with
  | prefixed _ operand => exact operand.cons (PrefixOp.terminal_ne_invalid _)
  | assigned _ _ target value => exact (target.of_cons (Assignment.terminal_ne_invalid _)).trans value
  | @compared _ op _ _ _ _ _ _ _ _ left right =>
      exact (left.trans (.append op.invalid_notMem_terminals)).trans right
  | _ => grind [Grouping.node?_invalid]

/-- An invalid token is never taken. -/
theorem invalid_mem (h : Derives phrase i found o) (invalid : .invalid ∈ i) : .invalid ∈ o :=
  h.leaves.invalid_mem invalid

end Derives

end Grammar

end BuildScript
