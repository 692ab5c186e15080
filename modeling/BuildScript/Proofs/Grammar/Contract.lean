/-
Module: BuildScript.Proofs.Grammar.Contract
Layer: proofs about the grammar
Purpose: What the productions promise each other. A production that may find nothing looks at the terminal
  that comes first: either it cannot begin with this one, and then it finds nothing and leaves everything
  as it was, or it goes on to take terminals, all of them tokens, until it has built a tree or fails. So
  no loop goes round without taking a terminal, and no bound ever ends one.
Main exports: Rule, Rule.production, Rule.expects, Contract, Rule.contract, Rule.assignmentTarget
-/
import BuildScript.Proofs.Arena.Layout
import BuildScript.Proofs.Grammar.Bound
import BuildScript.Proofs.Grammar.Count
import BuildScript.Proofs.Grammar.Diagnosis

namespace BuildScript.Grammar

open BuildScript.Parser

/-!
### Rules
-/

/-- The rules whose productions may find nothing. -/
inductive Rule where
  | statement
  | expression
  | level (l : Level)
  | name
deriving DecidableEq, Repr, Inhabited

/-- The production of the level, with expressions nested at most `bound` deep in what it finds. -/
def Level.production (l : Level) (bound : Nat) : Production :=
  match l with
  | .assignment => Grammar.assignment (bound + 1) (Grammar.expression bound)
  | .conditional => Grammar.conditional (bound + 1) (Grammar.expression bound)
  | .grouping .or => disjunction (bound + 1) (Grammar.expression bound)
  | .grouping .and => conjunction (bound + 1) (Grammar.expression bound)
  | .comparing .equality => equality (bound + 1) (Grammar.expression bound)
  | .comparing .order => relational (bound + 1) (Grammar.expression bound)
  | .grouping .sum => additive (bound + 1) (Grammar.expression bound)
  | .grouping .product => multiplicative (bound + 1) (Grammar.expression bound)
  | .unary => Grammar.unary (bound + 1) (Grammar.expression bound)
  | .chain => Grammar.chain (bound + 1) (Grammar.expression bound)
  | .primary => Grammar.primary (bound + 1) (Grammar.expression bound)

/-- The words and signs that the level can begin with and the next tighter one cannot. -/
def Level.adds : Level → List Terminal
  | .assignment =>
      [.punct .eq, .punct .plusEq, .punct .minusEq, .punct .starEq, .punct .slashEq, .punct .percentEq]
  | .conditional => [.punct .question]
  | .grouping .or => [.keyword .kwOr]
  | .grouping .and => [.keyword .kwAnd]
  | .comparing .equality => [.punct .eqEq, .punct .bangEq]
  | .comparing .order =>
      [.punct .less, .punct .lessEq, .punct .greater, .punct .greaterEq, .keyword .kwIn]
  | .grouping .sum => []
  | .grouping .product => [.punct .star, .punct .slash, .punct .percent]
  | .unary => [.keyword .kwNot, .punct .plus, .punct .minus]
  | .chain | .primary => []

/-- The terminals that the production of the level tells from others: those of a primary, and what the levels
    add. Assignment operators are among them, though no expression begins with one. -/
def Level.expects (l : Level) (t : Terminal) : Bool :=
  beginsPrimary t || Level.all.any fun l' => decide (l.strength ≤ l'.strength) && l'.adds.contains t

namespace Rule

/-- The production of the rule, with bounds as for levels. -/
def production (rule : Rule) (bound : Nat) : Production :=
  match rule with
  | .statement => Grammar.statement (bound + 1)
  | .expression => Grammar.expression (bound + 1)
  | .level l => l.production bound
  | .name => Grammar.name

/-- The terminals in front of which the production of the rule finds or misses something. -/
def expects : Rule → Terminal → Bool
  | .statement, t =>
      [.keyword .kwIf, .keyword .kwForeach, .keyword .kwBreak, .keyword .kwContinue].contains t ||
        Level.expects .assignment t
  | .expression, t => Level.expects .assignment t
  | .level l, t => l.expects t
  | .name, t => (name? t).isSome

/-- Whether what the rule finds can be an assignment. -/
def assigns (rule : Rule) : Bool :=
  rule ∈ [.statement, .expression, .level .assignment]

/-- What the rule finds in front of `input`, and what is left then. -/
def Finds : Rule → (input : List Terminal) → Option Tree → (rest : List Terminal) → Prop
  | .statement => Derives .statement
  | .expression => Derives expr
  | .level l => Derives (.level l)
  | .name => fun input found rest => (∃ text, input = .name text :: rest ∧ found = some (.name text)) ∨
      (Starts isNameTerminal input = false ∧ found = none ∧ rest = input)

end Rule

/-!
### First terminals
-/

/-- An assignment operator is expected with no target in front as well, and rejected then. -/
theorem Level.expects_eq (l : Level) (t : Terminal) :
    l.expects t = (l.begins t || decide (l = .assignment) && isAssignment t) := by
  rcases l with _ | _ | ⟨_ | _ | _ | _⟩ | ⟨_ | _⟩ | _ | _ | _
  all_goals
    cases t with
    | punct sign => cases sign <;> rfl
    | keyword word => cases word <;> rfl
    | _ => rfl

/-- A statement begins with one of its words or as an expression does. -/
theorem Rule.expects_statement (t : Terminal) :
    Rule.expects .statement t = (beginsStatement t || Level.expects .assignment t) := by
  cases t with
  | keyword word => cases word <;> rfl
  | _ => rfl

/-- Nothing is found exactly in front of terminals of which `expects` does not admit the first, and none is
    taken then; otherwise there is one that is taken, and only tokens are. -/
structure Decided (expects : Terminal → Bool) (input : List Terminal)
    (finds : Option Tree → List Terminal → Prop) : Prop where
  absent : ∀ rest, finds none rest ↔ Starts expects input = false ∧ rest = input
  present : ∀ t rest, finds (some t) rest → Leaves input rest ∧ rest.length < input.length

variable {i : List Terminal} {bound : Nat} {s : State}

/-- The terminal that comes first decides whether a level finds anything. -/
theorem decided_level (l : Level) : Decided l.expects i (Derives (.level l) i) where
  absent rest := by
    have split : Starts l.expects i =
        (Starts l.begins i || Starts (fun t => decide (l = .assignment) && isAssignment t) i) :=
      starts_or l.expects_eq i
    rw [split, Bool.or_eq_false_iff]
    constructor
    · intro h
      obtain rfl := h.eq_of_none
      refine ⟨⟨h.begun, ?_⟩, rfl⟩
      by_cases assignment : l = .assignment
      · subst assignment
        cases h with
        | unassigned _ ends => simpa using ends
      · cases rest <;> simp [Starts, assignment]
    · intro h
      obtain ⟨⟨other, plain⟩, rfl⟩ := h
      refine Derives.none_of_starts other fun assignment => ?_
      subst assignment
      simpa using plain
  present t rest h := ⟨h.leaves, h.length_lt⟩

namespace Rule

/-- The terminal that comes first decides whether a rule finds anything. -/
theorem decided : ∀ rule : Rule, Decided rule.expects i (rule.Finds i)
  | .level l => decided_level l
  | .expression => decided_level .assignment
  | .statement => by
      have split : Starts (expects .statement) i =
          (Starts beginsStatement i || Starts (Level.expects .assignment) i) :=
        starts_or expects_statement i
      have inner := decided_level (i := i) .assignment
      refine ⟨fun rest => ?_, fun t rest h => ⟨h.leaves, h.length_add_least⟩⟩
      rw [split, Bool.or_eq_false_iff]
      constructor
      · intro h
        cases h with
        | expression other absent => exact ⟨⟨other, ((inner.absent rest).mp absent).1⟩, absent.eq_of_none⟩
      · intro h
        obtain ⟨⟨other, plain⟩, same⟩ := h
        exact .expression other ((inner.absent rest).mpr ⟨plain, same⟩)
  | .name => by
      refine ⟨fun rest => ?_, fun t rest h => ?_⟩
      · constructor
        · intro h
          rcases h with ⟨text, -, ⟨⟩⟩ | ⟨other, -, same⟩
          exact ⟨other, same⟩
        · intro h
          exact .inr ⟨h.1, rfl, h.2⟩
      · rcases h with ⟨text, rfl, -⟩ | ⟨-, ⟨⟩, -⟩
        exact ⟨.head (by simp), Nat.lt_succ_self _⟩

end Rule

/-!
### Readings
-/

/-- The production of a level finds what the grammar derives. -/
theorem Level.reads (l : Level) (enough : i.length ≤ bound + 1) :
    Parser.Reads (l.production bound) i (Derives (.level l) i) := by
  have inner (j : List Terminal) (short : j.length < bound + 1) :
      Parser.Reads (Grammar.expression bound) j (Derives expr j) :=
    reads_expression bound (Nat.le_of_lt_succ short)
  have small := Nat.le_refl (bound + 1)
  cases l with
  | assignment => exact reads_assignment inner enough
  | conditional => exact reads_conditional inner enough
  | grouping g =>
      cases g with
      | or => exact reads_disjunction inner enough
      | and => exact reads_conjunction inner enough
      | sum => exact reads_additive inner enough
      | product => exact reads_multiplicative inner enough
  | comparing c =>
      cases c with
      | equality => exact reads_equality inner enough
      | order => exact reads_relational inner enough
  | unary => exact reads_unary inner small enough
  | chain => exact reads_chain inner small enough
  | primary => exact reads_primary inner small enough

theorem Level.rejects (l : Level) (enough : i.length ≤ bound + 1) :
    Rejecting (l.production bound) i (Rejects (.level l) i) := by
  have inner (j : List Terminal) (short : j.length < bound + 1) :
      Parser.Reads (Grammar.expression bound) j (Derives expr j) :=
    reads_expression bound (Nat.le_of_lt_succ short)
  have rejects (j : List Terminal) (short : j.length < bound + 1) :
      Rejecting (Grammar.expression bound) j (Rejects expr j) :=
    rejects_expression bound (Nat.le_of_lt_succ short)
  have small := Nat.le_refl (bound + 1)
  cases l with
  | assignment => exact rejects_assignment inner rejects enough
  | conditional => exact rejects_conditional inner rejects enough
  | grouping g =>
      cases g with
      | or => exact rejects_disjunction inner rejects enough
      | and => exact rejects_conjunction inner rejects enough
      | sum => exact rejects_additive inner rejects enough
      | product => exact rejects_multiplicative inner rejects enough
  | comparing c =>
      cases c with
      | equality => exact rejects_equality inner rejects enough
      | order => exact rejects_relational inner rejects enough
  | unary => exact rejects_unary inner rejects small enough
  | chain => exact rejects_chain inner rejects small enough
  | primary => exact rejects_primary inner rejects small enough

theorem Level.counts (l : Level) (bound : Nat) : Counts 0 Tree.sizeOption (l.production bound) := by
  have inner := counts_expression bound
  cases l with
  | assignment => exact counts_assignment inner _
  | conditional => exact counts_conditional inner _
  | grouping g =>
      cases g with
      | or => exact counts_disjunction inner _
      | and => exact counts_conjunction inner _
      | sum => exact counts_additive inner _
      | product => exact counts_multiplicative inner _
  | comparing c =>
      cases c with
      | equality => exact counts_equality inner _
      | order => exact counts_relational inner _
  | unary => exact counts_unary inner _
  | chain => exact counts_chain inner _
  | primary => exact counts_primary inner _

/-- The productions of the levels are composed of the basic steps. -/
theorem Level.composed {P : ∀ {α : Type}, Parser α → Prop} (h : Compositional P) (l : Level) (bound : Nat) :
    P (l.production bound) := by
  have inner := h.expression bound
  cases l with
  | assignment => exact h.assignment inner _
  | conditional => exact h.conditional inner _
  | grouping g =>
      cases g with
      | or => exact h.disjunction inner _
      | and => exact h.conjunction inner _
      | sum => exact h.additive inner _
      | product => exact h.multiplicative inner _
  | comparing c =>
      cases c with
      | equality => exact h.equality inner _
      | order => exact h.relational inner _
  | unary => exact h.unary inner _
  | chain => exact h.chain inner _
  | primary => exact h.primary inner _

/-- One more makes no difference to a bound of no less than the number of terminals left. -/
theorem Level.alike (l : Level) (bound : Nat) :
    Alike (bound + 2) (l.production bound) (l.production (bound + 1)) := by
  have inner : Alike (bound + 1) (Grammar.expression bound) (Grammar.expression (bound + 1)) :=
    .expression (Nat.le_refl _)
  have small := Nat.le_refl (bound + 2)
  cases l with
  | assignment => exact .assignment inner small
  | conditional => exact .conditional inner small
  | grouping g =>
      cases g with
      | or => exact .disjunction inner small
      | and => exact .conjunction inner small
      | sum => exact .additive inner small
      | product => exact .multiplicative inner small
  | comparing c =>
      cases c with
      | equality => exact .equality inner small
      | order => exact .relational inner small
  | unary => exact .unary inner small
  | chain => exact .chain inner small
  | primary => exact .primary inner small

namespace Rule

/-- The production of a rule finds what the rule does. -/
theorem reads (rule : Rule) (enough : i.length ≤ bound + 1) :
    Parser.Reads (rule.production bound) i (rule.Finds i) := by
  cases rule with
  | statement => exact reads_statement (bound + 1) enough
  | expression => exact reads_expression (bound + 1) enough
  | level l => exact l.reads enough
  | name => exact reads_name

/-- Where a production is rejected, only tokens have been taken. -/
theorem rejects (rule : Rule) (enough : i.length ≤ bound + 1) :
    Rejecting (rule.production bound) i fun _ rest => Leaves i rest := by
  cases rule with
  | statement => exact (rejects_statement (bound + 1) enough).mono fun _ _ h => h.leaves
  | expression => exact (rejects_expression (bound + 1) enough).mono fun _ _ h => h.leaves
  | level l => exact (l.rejects enough).mono fun _ _ h => h.leaves
  | name => exact rejects_name

/-- A production has built what it finds. -/
theorem counts (rule : Rule) (bound : Nat) : Counts 0 Tree.sizeOption (rule.production bound) := by
  cases rule with
  | statement => exact counts_statement _
  | expression => exact counts_expression _
  | level l => exact l.counts bound
  | name => exact counts_name

theorem cutoff (rule : Rule) (bound : Nat) : Cutoff (rule.production bound) := by
  have h := Cutoff.compositional
  cases rule with
  | statement => exact h.statement _
  | expression => exact h.expression _
  | level l => exact l.composed h bound
  | name => exact h.name

/-- The bound of a production may be any that is not too small. -/
theorem alike (rule : Rule) (bound : Nat) :
    Alike (bound + 2) (rule.production bound) (rule.production (bound + 1)) := by
  cases rule with
  | statement => exact .statement (Nat.le_refl _)
  | expression => exact .expression (Nat.le_refl _)
  | level l => exact l.alike bound
  | name => exact .refl Local.compositional.name

/-- A rule finds the same whatever the bound, as long as no more terminals are left. -/
theorem production_eq (rule : Rule) {bound' : Nat} (enough : s.input.length ≤ bound + 1)
    (le : bound ≤ bound') : rule.production bound' s = rule.production bound s := by
  induction bound', le using Nat.le_induction with
  | base => rfl
  | succ bound' le ih =>
      have short : s.input.length < bound' + 2 := by omega
      exact ((rule.alike bound').same s short).symm.trans ih

end Rule

/-!
### The contract
-/

/-- What a production comes to in front of a terminal that `expects` admits, and in front of others. -/
structure Contract (p : Production) (expects : Terminal → Bool) (s : State) : Prop where
  /-- Nothing is found exactly in front of the others, -/
  absent_iff : (∃ s', p s = .ok none s') ↔ Starts expects s.input = false
  /-- and leaves everything as it was. -/
  unchanged : ∀ s', p s = .ok none s' → s' = s
  /-- A tree is found behind one terminal at the least, and its root is the last node that has been added. -/
  found : ∀ t s', p s = .ok (some t) s' → s'.input.length < s.input.length ∧ s'.limit = s.limit ∧
    ∀ a : Arena, a.nodes.size = s.built →
      (t.layOut a).2.nodes.size = s'.built ∧ (t.layOut a).1.index + 1 = s'.built
  /-- Whatever comes of it, nothing but tokens is taken. -/
  leaves : Leaves s.input (Outcome.state (p s)).input

section

variable {α : Type} {x : Parser α} {finds : α → List Terminal → Prop}

/-- What a step finds with a limit it finds without one. -/
theorem finds_of_ok (cutoff : Cutoff x) (reads : Parser.Reads x s.input finds) {found : α} {s' : State}
    (run : x s = .ok found s') : finds found s'.input := by
  obtain ⟨o, built', rest, finds⟩ := reads.sound s.built found s'.unlimited (cutoff.ok run)
  have same : s'.input = o := congrArg State.input rest
  exact same ▸ finds

/-- Without a limit nothing but tokens is taken, whatever comes of it. -/
theorem leaves_of_unlimited (cutoff : Cutoff x) (reads : Parser.Reads x s.input finds)
    (rejects : Rejecting x s.input fun _ rest => Leaves s.input rest)
    (tokens : ∀ found rest, finds found rest → Leaves s.input rest) :
    Leaves s.input (Outcome.state (x s.unlimited)).input := by
  cases run : x s.unlimited with
  | ok found s' =>
      obtain ⟨o, built', rfl, finds⟩ := reads.sound s.built found s' run
      exact tokens found o finds
  | error e s' =>
      cases e with
      | rejected cause =>
          obtain ⟨o, built', rfl, leaves⟩ := rejects s.built cause s' run
          exact leaves
      | outOfMemory => exact (cutoff.memory run rfl).elim

/-- A step that takes only tokens where it comes to an end, takes only tokens where memory runs out. -/
theorem leaves_of_finds (cutoff : Cutoff x) (reads : Parser.Reads x s.input finds)
    (rejects : Rejecting x s.input fun _ rest => Leaves s.input rest)
    (tokens : ∀ found rest, finds found rest → Leaves s.input rest) :
    Leaves s.input (Outcome.state (x s)).input := by
  have free := leaves_of_unlimited cutoff reads rejects tokens
  cases run : x s with
  | ok found s' =>
      rw [cutoff.ok run] at free
      exact free
  | error e s' =>
      cases e with
      | rejected cause =>
          rw [cutoff.rejected run] at free
          exact free
      | outOfMemory =>
          have before := cutoff.suffix s
          rw [run] at before
          exact free.of_suffix before (cutoff.short run).2

end

theorem state_eq {s s' : State} (input : s'.input = s.input) (built : s'.built = s.built)
    (limit : s'.limit = s.limit) : s' = s := by
  cases s
  cases s'
  simp_all

/-- A production that the first terminal decides keeps the contract, if a limit only cuts it off. -/
theorem contract_of_decided {p : Production} {expects : Terminal → Bool}
    {finds : Option Tree → List Terminal → Prop} (reads : Parser.Reads p s.input finds)
    (decided : Decided expects s.input finds) (rejects : Rejecting p s.input fun _ rest => Leaves s.input rest)
    (counts : Counts 0 Tree.sizeOption p) (cutoff : Cutoff p) : Contract p expects s where
  absent_iff := by
    constructor
    · intro h
      obtain ⟨s', run⟩ := h
      exact ((decided.absent _).mp (finds_of_ok cutoff reads run)).1
    · intro other
      obtain ⟨built', free⟩ := reads.complete s.built none s.input ((decided.absent _).mpr ⟨other, rfl⟩)
      have free : p s.unlimited = .ok none (.free s.input built') := free
      have unbuilt : built' + 0 = s.built + 0 := counts _ _ _ free
      cases run : p s with
      | ok found s' =>
          have same := free.symm.trans (cutoff.ok run)
          injection same with none_found
          exact ⟨s', by rw [none_found]⟩
      | error e s' =>
          cases e with
          | rejected cause =>
              have same := free.symm.trans (cutoff.rejected run)
              cases same
          | outOfMemory =>
              -- Without a limit nothing is built either, so there is nothing to run out of.
              have more := (cutoff.short run).1
              rw [free] at more
              exact (Nat.ne_of_lt more unbuilt.symm).elim
  unchanged s' run := by
    have input := ((decided.absent _).mp (finds_of_ok cutoff reads run)).2
    have built : s'.built + 0 = s.built + 0 := counts _ _ _ run
    have limit := cutoff.limit s
    rw [run] at limit
    exact state_eq input built limit
  found t s' run := by
    have taken := (decided.present t _ (finds_of_ok cutoff reads run)).2
    have limit := cutoff.limit s
    rw [run] at limit
    refine ⟨taken, limit, fun a size => ?_⟩
    have built : s'.built + 0 = s.built + t.size := counts _ _ _ run
    have laid := laid_layOut t a
    have grown : (t.layOut a).2.nodes.size = s'.built := by
      have one : Tree.sizes [t] = t.size := by simp [Tree.sizes]
      rw [laid.size, size, one]
      exact built.symm
    exact ⟨grown, laid.root_last.trans grown⟩
  leaves := leaves_of_finds cutoff reads rejects fun found rest h => by
    cases found with
    | none =>
        obtain ⟨-, rfl⟩ := (decided.absent rest).mp h
        exact .refl _
    | some t => exact (decided.present t rest h).1

/-- All rules keep the contract. -/
theorem Rule.contract (rule : Rule) (enough : s.input.length ≤ bound + 1) :
    Contract (rule.production bound) rule.expects s :=
  contract_of_decided (rule.reads enough) rule.decided (rule.rejects enough) (rule.counts bound)
    (rule.cutoff bound)

/-- A terminal that writes an assignment is taken where an assignment can be, and rejected for its target. -/
theorem Rule.assignmentTarget (rule : Rule) (assigns : rule.assigns = true)
    (enough : s.input.length ≤ bound + 1) {t : Terminal} {rest : List Terminal}
    (input : s.input = t :: rest) (assignment : isAssignment t = true) :
    rule.production bound s = .error (.rejected .assignmentTarget) (s.before rest) := by
  obtain ⟨op, rfl⟩ : ∃ op, t = Assignment.terminal op := by
    rw [← isSome_assignOp?] at assignment
    obtain ⟨op, made⟩ := Option.isSome_iff_exists.mp assignment
    exact ⟨op, assignOp?_eq_some.mp made⟩
  have made := assignOp?_eq_some.mpr (rfl : op.terminal = op.terminal)
  have target : Grammar.conditional (bound + 1) (Grammar.expression bound) s = .ok none s := by
    have contract := Rule.contract (.level .conditional) enough
    obtain ⟨s', run⟩ := contract.absent_iff.mpr (by rw [input]; cases op <;> rfl)
    exact contract.unchanged s' run ▸ run
  have taken : take? assignOp? s = .ok (some op) (s.before rest) := by
    simp [take?, input, made, State.before]
  have rejected : Grammar.assignment (bound + 1) (Grammar.expression bound) s =
      .error (.rejected .assignmentTarget) (s.before rest) := by
    rw [Grammar.assignment, bind_apply_ok target, bind_apply_ok taken]
    rfl
  have other : take? opening? s = .ok none s := by
    have unopened : opening? op.terminal = none := by cases op <;> rfl
    simp [take?, input, unopened]
  simp only [Rule.assigns, List.mem_cons, List.not_mem_nil, or_false, decide_eq_true_eq] at assigns
  rcases assigns with rfl | rfl | rfl
  · exact (bind_apply_ok other).trans rejected
  · exact rejected
  · exact rejected

/-- Whatever comes of a program, nothing but tokens is taken. -/
theorem leaves_program (s : State) :
    Leaves s.input (Outcome.state (program s.input.length s)).input :=
  leaves_of_finds (Cutoff.compositional.program _) reads_program
    (rejects_program.mono fun _ _ refused => refused.leaves) fun _ _ h => h.2 ▸ h.1.leaves

end BuildScript.Grammar
