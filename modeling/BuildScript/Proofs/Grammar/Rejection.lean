/-
Module: BuildScript.Proofs.Grammar.Rejection
Layer: proofs about the grammar
Purpose: Why terminals are rejected, told by the grammar. Reading a phrase asks for other phrases, each at a
  place that the ones read before it leave; a rejection comes from one phrase that is reached in this way
  and goes no further, and its cause tells what was missing behind what this phrase had read. Only the
  phrase that is to blame speaks: a cause passes through the phrases around it unchanged.
Main exports: Asks, Reached, Blames, Rejects, Refused, SyntaxError.Fits, Refused.fits
-/
import BuildScript.Proofs.Grammar.Opening
import BuildScript.Proofs.Grammar.Recognition

namespace BuildScript

namespace Grammar

/-!
### Phrases in phrases
-/

/-- Reading `phrase` from `input` asks for `part` in front of `rest`. -/
inductive Asks : (phrase : Phrase) → (input : List Terminal) → (part : Phrase) → (rest : List Terminal) →
    Prop where
  /- Primaries and rows. -/
  | parenthesized {i} : Asks (.level .primary) (.punct .leftParen :: i) expr i
  | array {i} : Asks (.level .primary) (.punct .leftBracket :: i) (.bracketed .items) i
  | dictionary {i} : Asks (.level .primary) (.punct .leftBrace :: i) (.bracketed .entries) i
  | elements {row i} (other : Starts (· == .punct row.close) i = false) :
      Asks (.bracketed row) i (.row row false) i
  | element {row only i} : Asks (.row row only) i (.element row only) i
  | more {row only i m first} (element : Derives (.element row only) i first (.punct .comma :: m))
      (goes_on : Starts (· == .punct row.close) m = false) :
      Asks (.row row only) i (.row row (row.isKeyword first)) m
  | inner {row only i} : Asks (.element row only) i expr i
  | entryValue {only i m key} (left : Derives expr i (some key) (.punct .colon :: m)) :
      Asks (.element .entries only) i expr m
  | keywordValue {only i m text} (key : Derives expr i (some (.name text)) (.punct .colon :: m)) :
      Asks (.element .arguments only) i expr m
  /- Chains. -/
  | first {i} : Asks (.level .chain) i (.level .primary) i
  | links {i m text} (first : Derives (.level .primary) i (some (.name text)) m) :
      Asks (.level .chain) i (.links (.name text)) m
  | field {object i} : Asks (.links object) (.punct .dot :: i) (.level .primary) i
  | behindField {object i m text} (field : Derives (.level .primary) i (some (.name text)) m) :
      Asks (.links object) (.punct .dot :: i) (.links (.member object (.name text))) m
  | arguments {object i} : Asks (.links object) (.punct .leftParen :: i) (.bracketed .arguments) i
  | behindArguments {object i m all} (args : Derives (.bracketed .arguments) i all m) :
      Asks (.links object) (.punct .leftParen :: i) (.links (.application object
        (all.filterMap Argument.positional?) (all.filterMap Argument.keyword?))) m
  | position {object i} : Asks (.links object) (.punct .leftBracket :: i) expr i
  | behindPosition {object i m position}
      (inner : Derives expr i (some position) (.punct .rightBracket :: m)) :
      Asks (.links object) (.punct .leftBracket :: i) (.links (.index object position)) m
  /- Operators. -/
  | plain {i} (plain : Starts isPrefixOp i = false) : Asks (.level .unary) i (.level .chain) i
  | prefixed {op i} : Asks (.level .unary) (PrefixOp.terminal op :: i) (.level .chain) i
  | leftmost {g i} : Asks (.level (.grouping g)) i (.level (Grouping.operand g)) i
  | operands {g i m first} (operand : Derives (.level (Grouping.operand g)) i first m) :
      Asks (.level (.grouping g)) i (.operands g first) m
  | operand {g lhs t node i} (operator : Grouping.node? g t = some node) :
      Asks (.operands g lhs) (t :: i) (.level (Grouping.operand g)) i
  | behindOperand {g lhs t node i m rhs} (operator : Grouping.node? g t = some node)
      (right : Derives (.level (Grouping.operand g)) i (some rhs) m) :
      Asks (.operands g lhs) (t :: i) (.operands g (some (node (operandOf lhs) rhs))) m
  | compared {c i} : Asks (.level (.comparing c)) i (.level (Comparing.operand c)) i
  | comparand {c op i m lhs} (its_level : Comparing.of op = c)
      (left : Derives (.level (Comparing.operand c)) i lhs (op.terminals ++ m)) :
      Asks (.level (.comparing c)) i (.level (Comparing.operand c)) m
  | condition {i} : Asks (.level .conditional) i (.level (.grouping .or)) i
  | thenBranch {i m condition} (left : Derives (.level (.grouping .or)) i condition (.punct .question :: m)) :
      Asks (.level .conditional) i expr m
  | elseBranch {i m n condition yes}
      (left : Derives (.level (.grouping .or)) i condition (.punct .question :: m))
      (middle : Derives expr m (some yes) (.punct .colon :: n)) : Asks (.level .conditional) i expr n
  | target {i} : Asks (.level .assignment) i (.level .conditional) i
  | value {op i m text}
      (target : Derives (.level .conditional) i (some (.name text)) (Assignment.terminal op :: m)) :
      Asks (.level .assignment) i expr m
  /- Statements. -/
  | expression {i} (other : Starts beginsStatement i = false) : Asks .statement i expr i
  | clauses {i} : Asks .statement (.keyword .kwIf :: i) .clauses i
  | otherwise {i m cs} (clauses : Derives .clauses i cs (.keyword .kwElse :: m)) :
      Asks .statement (.keyword .kwIf :: i) .body m
  | loopVariables {i} : Asks .statement (.keyword .kwForeach :: i) .loopVariables i
  | iterable {i m vars} (names : Derives .loopVariables i vars (.punct .colon :: m)) :
      Asks .statement (.keyword .kwForeach :: i) expr m
  | loopBody {i m n vars iterable} (names : Derives .loopVariables i vars (.punct .colon :: m))
      (inner : Derives expr m (some iterable) n) : Asks .statement (.keyword .kwForeach :: i) .body n
  | statement {i} : Asks .statements i .statement i
  | statements {i m first} (one : Derives .statement i (some first) m) : Asks .statements i .statements m
  | body {i} : Asks .body i .statements i
  | predicate {i} : Asks .clauses i expr i
  | clauseBody {i m predicate} (inner : Derives expr i (some predicate) m) : Asks .clauses i .body m
  | nextClauses {i m n predicate b} (inner : Derives expr i (some predicate) m)
      (body : Derives .body m b (.keyword .kwElif :: n)) : Asks .clauses i .clauses n
  | nextVariables {text i} : Asks .loopVariables (.name text :: .punct .comma :: i) .loopVariables i

/-- In the course of reading `phrase` from `input`, `part` is asked for in front of `rest`. -/
inductive Reached : (phrase : Phrase) → (input : List Terminal) → (part : Phrase) → (rest : List Terminal) →
    Prop where
  | here {phrase i} : Reached phrase i phrase i
  | inside {phrase i part m inner o} (asks : Asks phrase i part m) (reached : Reached part m inner o) :
      Reached phrase i inner o

/-!
### Causes
-/

/-- The cause when the right operand of an operator is missing. -/
def Grouping.unfinished : Grouping → SyntaxError
  | .or => .orOperand
  | .and => .andOperand
  | .sum => .additiveOperand
  | .product => .multiplicativeOperand

/-- The cause when the right operand of a comparison is missing. -/
def Comparing.unfinished : Comparing → SyntaxError
  | .equality => .equalityOperand
  | .order => .relationalOperand

/-- The cause when there is no element where one has to be. -/
def Row.unfilled : Row → SyntaxError
  | .items => .arrayItem
  | .entries => .dictionaryKey
  | .arguments => .argument

/-- The cause when the closing bracket is missing. -/
def Row.unclosed : Row → SyntaxError
  | .items => .arrayClose
  | .entries => .dictionaryClose
  | .arguments => .argumentsClose

/-- The phrase in front of `input` is to blame: what it has to go on with is not there in front of `rest`. -/
inductive Blames : (phrase : Phrase) → (input : List Terminal) → (cause : SyntaxError) →
    (rest : List Terminal) → Prop where
  /- Primaries and rows. -/
  | parenthesized {o} (absent : Derives expr o none o) :
      Blames (.level .primary) (.punct .leftParen :: o) .parenthesized o
  | closingParen {i o t} (inner : Derives expr i (some t) o)
      (missing : Starts (· == .punct .rightParen) o = false) :
      Blames (.level .primary) (.punct .leftParen :: i) .closingParen o
  | numberRange {o} : Blames (.level .primary) (.number none :: o) .numberRange (.number none :: o)
  | unclosed {row i o all} (elements : Derives (.row row false) i all o)
      (missing : Starts (· == .punct row.close) o = false) : Blames (.bracketed row) i row.unclosed o
  | unfilled {row only o} (absent : Derives expr o none o) :
      Blames (.element row only) o row.unfilled o
  | dictionaryColon {only i o key} (left : Derives expr i (some key) o)
      (missing : Starts (· == .punct .colon) o = false) : Blames (.element .entries only) i .dictionaryColon o
  | dictionaryValue {only i o key} (left : Derives expr i (some key) (.punct .colon :: o))
      (absent : Derives expr o none o) : Blames (.element .entries only) i .dictionaryValue o
  | keywordName {only i o t} (key : Derives expr i (some t) (.punct .colon :: o)) (other : t.isName = false) :
      Blames (.element .arguments only) i .keywordName o
  | keywordValue {only i o text} (key : Derives expr i (some (.name text)) (.punct .colon :: o))
      (absent : Derives expr o none o) : Blames (.element .arguments only) i .keywordValue o
  | keywordMissing {i o t} (value : Derives expr i (some t) o)
      (plain : Starts (· == .punct .colon) o = false) : Blames (.element .arguments true) i .keywordMissing o
  /- Chains. -/
  | fieldMissing {object o} (absent : Derives (.level .primary) o none o) :
      Blames (.links object) (.punct .dot :: o) .fieldMissing o
  | fieldName {object i o t} (field : Derives (.level .primary) i (some t) o) (other : t.isName = false) :
      Blames (.links object) (.punct .dot :: i) .fieldName o
  | subscriptIndex {object o} (absent : Derives expr o none o) :
      Blames (.links object) (.punct .leftBracket :: o) .subscriptIndex o
  | subscriptClose {object i o t} (inner : Derives expr i (some t) o)
      (missing : Starts (· == .punct .rightBracket) o = false) :
      Blames (.links object) (.punct .leftBracket :: i) .subscriptClose o
  /- Operators. -/
  | unaryOperand {op o} (absent : Derives (.level .chain) o none o) :
      Blames (.level .unary) (PrefixOp.terminal op :: o) .unaryOperand o
  | operand {g lhs t node o} (operator : Grouping.node? g t = some node)
      (absent : Derives (.level (Grouping.operand g)) o none o) :
      Blames (.operands g lhs) (t :: o) (Grouping.unfinished g) o
  | inAfterNot {i o lhs} (left : Derives (.level (.grouping .sum)) i lhs (.keyword .kwNot :: o))
      (missing : Starts (· == .keyword .kwIn) o = false) : Blames (.level (.comparing .order)) i .inAfterNot o
  | comparand {c op i o lhs} (its_level : Comparing.of op = c)
      (left : Derives (.level (Comparing.operand c)) i lhs (op.terminals ++ o))
      (absent : Derives (.level (Comparing.operand c)) o none o) :
      Blames (.level (.comparing c)) i (Comparing.unfinished c) o
  | ternaryThen {i o condition} (left : Derives (.level (.grouping .or)) i condition (.punct .question :: o))
      (absent : Derives expr o none o) : Blames (.level .conditional) i .ternaryThen o
  | ternaryColon {i m o condition yes}
      (left : Derives (.level (.grouping .or)) i condition (.punct .question :: m))
      (middle : Derives expr m (some yes) o) (missing : Starts (· == .punct .colon) o = false) :
      Blames (.level .conditional) i .ternaryColon o
  | ternaryElse {i m o condition yes}
      (left : Derives (.level (.grouping .or)) i condition (.punct .question :: m))
      (middle : Derives expr m (some yes) (.punct .colon :: o)) (absent : Derives expr o none o) :
      Blames (.level .conditional) i .ternaryElse o
  | assignmentTarget {op i o lhs} (target : Derives (.level .conditional) i lhs (Assignment.terminal op :: o))
      (other : ∀ text, lhs ≠ some (.name text)) : Blames (.level .assignment) i .assignmentTarget o
  | assignmentValue {op i o text}
      (target : Derives (.level .conditional) i (some (.name text)) (Assignment.terminal op :: o))
      (absent : Derives expr o none o) : Blames (.level .assignment) i .assignmentValue o
  /- Statements. -/
  | predicate {o} (absent : Derives expr o none o) : Blames .clauses o .predicate o
  | endif {i o cs} (clauses : Derives .clauses i cs o) (plain : Starts (· == .keyword .kwElse) o = false)
      (missing : Starts (· == .keyword .kwEndif) o = false) :
      Blames .statement (.keyword .kwIf :: i) .endif o
  | endifElse {i m o cs b} (clauses : Derives .clauses i cs (.keyword .kwElse :: m))
      (otherwise : Derives .body m b o) (missing : Starts (· == .keyword .kwEndif) o = false) :
      Blames .statement (.keyword .kwIf :: i) .endif o
  | loopVariable {o} (other : Starts isNameTerminal o = false) : Blames .loopVariables o .loopVariable o
  | loopColon {i o vars} (names : Derives .loopVariables i vars o)
      (missing : Starts (· == .punct .colon) o = false) :
      Blames .statement (.keyword .kwForeach :: i) .loopColon o
  | loopIterable {i o vars} (names : Derives .loopVariables i vars (.punct .colon :: o))
      (absent : Derives expr o none o) : Blames .statement (.keyword .kwForeach :: i) .loopIterable o
  | endforeach {i m n o vars iterable b} (names : Derives .loopVariables i vars (.punct .colon :: m))
      (inner : Derives expr m (some iterable) n) (body : Derives .body n b o)
      (missing : Starts (· == .keyword .kwEndforeach) o = false) :
      Blames .statement (.keyword .kwForeach :: i) .endforeach o

/-- Reading the phrase is rejected for the cause, and then stands in front of `rest`. -/
def Rejects (phrase : Phrase) (input : List Terminal) (cause : SyntaxError) (rest : List Terminal) : Prop :=
  ∃ part m, Reached phrase input part m ∧ Blames part m cause rest

/-- Terminals, as a whole, are rejected: in the program that they begin with, or behind it. -/
inductive Refused (input : List Terminal) : (cause : SyntaxError) → (rest : List Terminal) → Prop where
  | inside {cause rest} (rejects : Rejects .body input cause rest) : Refused input cause rest
  | behind {t next rest} (program : Derives .body input t (next :: rest)) :
      Refused input .endOfInput (next :: rest)

variable {phrase part : Phrase} {i m o : List Terminal} {cause : SyntaxError}

theorem Blames.rejects (blames : Blames phrase i cause o) : Rejects phrase i cause o :=
  ⟨phrase, i, .here, blames⟩

/-- A cause passes through the phrase around the one that is rejected. -/
theorem Asks.rejects (asks : Asks phrase i part m) (rejects : Rejects part m cause o) :
    Rejects phrase i cause o := by
  obtain ⟨inner, k, reached, blames⟩ := rejects
  exact ⟨inner, k, .inside asks reached, blames⟩

/-!
### Source that is no token
-/

/-- No phrase that another asks for lies behind source that is no token. -/
theorem Asks.leaves (asks : Asks phrase i part m) : Leaves i m := by
  cases asks with
  | @comparand _ op _ _ _ _ left => exact left.leaves.trans (.append op.invalid_notMem_terminals)
  | _ =>
      grind [Grouping.node?_invalid, PrefixOp.terminal_ne_invalid, Assignment.terminal_ne_invalid]

theorem Reached.leaves (reached : Reached phrase i part m) : Leaves i m := by
  induction reached with
  | here => exact .refl _
  | inside asks _ ih => exact asks.leaves.trans ih

theorem Blames.leaves (blames : Blames phrase i cause o) : Leaves i o := by
  cases blames with
  | @comparand _ op _ _ _ _ left _ => exact left.leaves.trans (.append op.invalid_notMem_terminals)
  | _ =>
      grind [Grouping.node?_invalid, PrefixOp.terminal_ne_invalid, Assignment.terminal_ne_invalid]

/-- A rejection stands behind tokens only. -/
theorem Rejects.leaves (rejects : Rejects phrase i cause o) : Leaves i o := by
  obtain ⟨part, m, reached, blames⟩ := rejects
  exact reached.leaves.trans blames.leaves

/-- A refusal stands behind tokens only. -/
theorem Refused.leaves (refused : Refused i cause o) : Leaves i o := by
  cases refused with
  | inside rejects => exact rejects.leaves
  | behind program => exact program.leaves

/-- Terminals are rejected in front of source that is no token, if not earlier. -/
theorem Refused.invalid_mem (refused : Refused i cause o) (invalid : .invalid ∈ i) : .invalid ∈ o :=
  refused.leaves.invalid_mem invalid

/-!
### What causes tell
-/

/-- Statements go on as long as another one begins. -/
theorem Derives.barred_behind_statements {all : List Tree} (h : Derives .statements i all o) :
    BarredStatement o := by
  induction all generalizing i with
  | nil =>
      cases h with
      | statementsEnd none =>
          have barred := none.barredStatement
          cases none with
          | expression _ inner => rwa [inner.eq_of_none]
  | cons first others ih =>
      cases h with
      | statements _ rest => exact ih rest

/-- Behind a body no statement begins. -/
theorem Derives.barred_behind_body {t : Tree} (h : Derives .body i t o) : BarredStatement o := by
  cases h with
  | emptyBody all => exact all.barred_behind_statements
  | body all => exact all.barred_behind_statements

end Grammar

open Grammar (Level Derives Reached Barred BarredStatement expr)

/-- What the cause tells of `rest`, that the reading of `input` then stands in front of: a terminal that is
    missing does not come first, a phrase that is missing does not begin there, and an operand that has to be
    a name has just been read as something else. -/
def SyntaxError.Fits (input rest : List Terminal) : SyntaxError → Prop
  | .closingParen | .argumentsClose => rest.head? ≠ some (.punct .rightParen)
  | .arrayClose | .subscriptClose => rest.head? ≠ some (.punct .rightBracket)
  | .dictionaryClose => rest.head? ≠ some (.punct .rightBrace)
  | .ternaryColon | .dictionaryColon | .keywordMissing | .loopColon =>
      rest.head? ≠ some (.punct .colon)
  | .inAfterNot => rest.head? ≠ some (.keyword .kwIn)
  | .endif => rest.head? ≠ some (.keyword .kwEndif)
  | .endforeach => rest.head? ≠ some (.keyword .kwEndforeach)
  | .loopVariable => ∀ text, rest.head? ≠ some (.name text)
  | .endOfInput => rest ≠ [] ∧ BarredStatement rest
  | .parenthesized | .arrayItem | .dictionaryKey | .dictionaryValue | .subscriptIndex | .argument
  | .keywordValue | .assignmentValue | .ternaryThen | .ternaryElse | .predicate | .loopIterable =>
      Barred .assignment rest
  | .orOperand => Barred (.grouping .and) rest
  | .andOperand => Barred (.comparing .equality) rest
  | .equalityOperand => Barred (.comparing .order) rest
  | .relationalOperand => Barred (.grouping .sum) rest
  | .additiveOperand => Barred (.grouping .product) rest
  | .multiplicativeOperand => Barred .unary rest
  | .unaryOperand => Barred .chain rest
  | .fieldMissing => Barred .primary rest
  | .numberRange => rest.head? = some (.number none)
  | .assignmentTarget => ∃ i op lhs, Reached .body input expr i ∧
      Derives (.level .conditional) i lhs (Assignment.terminal op :: rest) ∧ ∀ text, lhs ≠ some (.name text)
  | .fieldName => ∃ object i t, Reached .body input (.links object) (.punct .dot :: i) ∧
      Derives (.level .primary) i (some t) rest ∧ t.isName = false
  | .keywordName => ∃ only i t, Reached .body input (.element .arguments only) i ∧
      Derives expr i (some t) (.punct .colon :: rest) ∧ t.isName = false

namespace Grammar

theorem head?_ne_of_starts {t : Terminal} (other : Starts (· == t) o = false) : o.head? ≠ some t := by
  cases o with
  | nil => simp
  | cons next rest => simpa [Starts] using other

/-- A phrase that is reached in a program is blamed for no more than what is so. -/
theorem Blames.fits {input : List Terminal} (blames : Blames part m cause o)
    (reached : Reached .body input part m) : cause.Fits input o := by
  cases blames with
  | closingParen _ missing | dictionaryColon _ missing | keywordMissing _ missing
  | subscriptClose _ missing | inAfterNot _ missing | ternaryColon _ _ missing | endif _ _ missing
  | endifElse _ _ missing | loopColon _ missing | endforeach _ _ _ missing =>
      exact head?_ne_of_starts missing
  | @unclosed row _ _ _ _ missing => cases row <;> exact head?_ne_of_starts missing
  | parenthesized absent | dictionaryValue _ absent | keywordValue _ absent | fieldMissing absent
  | subscriptIndex absent | unaryOperand absent | ternaryThen _ absent | ternaryElse _ _ absent
  | assignmentValue _ absent | predicate absent | loopIterable _ absent =>
      exact absent.barred
  | @unfilled row _ _ absent => cases row <;> exact absent.barred
  | @operand g _ _ _ _ _ absent => cases g <;> exact absent.barred
  | @comparand c _ _ _ _ _ _ absent => cases c <;> exact absent.barred
  | numberRange => rfl
  | loopVariable other =>
      rintro text names
      obtain ⟨rest, rfl⟩ := List.head?_eq_some_iff.mp names
      cases other
  | fieldName field other => exact ⟨_, _, _, reached, field, other⟩
  | keywordName key other => exact ⟨_, _, _, reached, key, other⟩
  | assignmentTarget target other => exact ⟨_, _, _, reached, target, other⟩

/-- What a program is rejected for is so. -/
theorem Refused.fits {input : List Terminal} (refused : Refused input cause o) : cause.Fits input o := by
  cases refused with
  | inside rejects =>
      obtain ⟨part, m, reached, blames⟩ := rejects
      exact blames.fits reached
  | behind program => exact ⟨List.cons_ne_nil _ _, program.barred_behind_body⟩

end Grammar

end BuildScript
