/-
Module: BuildScript.Proofs.Grammar.Exact
Layer: proofs about the grammar
Purpose: What a step of a reading without a limit finds, told both ways: a step `Reads` a relation on an
  input when its results, each with the terminals that it leaves, are exactly those that the relation
  admits. The rules follow the ways in which productions are composed; a branch on the terminal that
  comes next splits the relation like the production.
Main exports: Parser.Reads, Parser.Reads.bind, Parser.Reads.congr
-/
import BuildScript.Proofs.Grammar.Composition
import BuildScript.Proofs.Grammar.Derivation

namespace BuildScript

namespace Parser

open Grammar (Starts operandOf)

variable {α β : Type}

/-- A reading without a limit in front of `input`, that has built some nodes. -/
def State.free (input : List Terminal) (built : Nat) : State :=
  { input, built, limit := none }

/-- In front of `i` the step succeeds with `a` and leaves `o` exactly if `D a o`. -/
structure Reads (x : Parser α) (i : List Terminal) (D : α → List Terminal → Prop) : Prop where
  sound : ∀ (built : Nat) (a : α) (s : State), x (.free i built) = .ok a s →
    ∃ o built', s = .free o built' ∧ D a o
  complete : ∀ (built : Nat) (a : α) (o : List Terminal), D a o →
    ∃ built', x (.free i built) = .ok a (.free o built')

namespace Reads

variable {x : Parser α} {f : α → Parser β} {i : List Terminal}

theorem congr {D E : α → List Terminal → Prop} (h : Reads x i D) (same : ∀ a o, D a o ↔ E a o) :
    Reads x i E where
  sound built a s run := by
    obtain ⟨o, built', rfl, found⟩ := h.sound built a s run
    exact ⟨o, built', rfl, (same a o).mp found⟩
  complete built a o found := h.complete built a o ((same a o).mpr found)

/-!
### Basic steps
-/

/-- A step that always succeeds with `a` and leaves `rest`. -/
theorem of_ok {a : α} {rest : List Terminal}
    (h : ∀ built, ∃ built', x (.free i built) = .ok a (.free rest built')) :
    Reads x i fun b o => b = a ∧ o = rest where
  sound built b s run := by
    obtain ⟨built', ok⟩ := h built
    rw [ok] at run
    cases run
    exact ⟨rest, built', rfl, rfl, rfl⟩
  complete built b o found := by
    obtain ⟨rfl, rfl⟩ := found
    exact h built

theorem pure (a : α) : Reads (Pure.pure a : Parser α) i fun b o => b = a ∧ o = i :=
  of_ok fun built => ⟨built, rfl⟩

theorem build (t : Tree) : Reads (build t) i fun b o => b = t ∧ o = i :=
  of_ok fun built => ⟨built + 1, rfl⟩

theorem reject (cause : SyntaxError) : Reads (reject cause : Parser α) i fun _ _ => False where
  sound _ _ _ run := by cases run
  complete _ _ _ found := found.elim

/-!
### Sequencing
-/

/-- A sequence finds what the second step finds behind something that the first one does. -/
theorem bind {D : α → List Terminal → Prop} {E : α → List Terminal → β → List Terminal → Prop}
    (hx : Reads x i D) (hf : ∀ a m, D a m → Reads (f a) m (E a m)) :
    Reads (x >>= f) i fun b o => ∃ a m, D a m ∧ E a m b o where
  sound built b s run := by
    obtain ⟨a, s1, first, second⟩ := bind_inv_ok run
    obtain ⟨m, built1, rfl, found⟩ := hx.sound built a s1 first
    obtain ⟨o, built', rfl, more⟩ := (hf a m found).sound built1 b s second
    exact ⟨o, built', rfl, a, m, found, more⟩
  complete built b o found := by
    obtain ⟨a, m, found, more⟩ := found
    obtain ⟨built1, first⟩ := hx.complete built a m found
    obtain ⟨built', second⟩ := (hf a m found).complete built1 b o more
    exact ⟨built', (bind_apply_ok first).trans second⟩

/-- Behind a step whose one result is known, only what follows it matters. -/
theorem after {a : α} {rest : List Terminal} {E : β → List Terminal → Prop}
    (hx : Reads x i fun b o => b = a ∧ o = rest) (hf : Reads (f a) rest E) :
    Reads (x >>= f) i E := by
  have both : Reads (x >>= f) i fun b o => ∃ a' m, (a' = a ∧ m = rest) ∧ E b o :=
    bind hx fun a' m found => by obtain ⟨rfl, rfl⟩ := found; exact hf
  exact both.congr fun b o => by simp

/-- Nothing is found behind a rejection. -/
theorem rejected {cause : SyntaxError} :
    Reads (Parser.reject cause >>= f) i fun _ _ => False where
  sound _ _ _ run := by cases run
  complete _ _ _ found := found.elim

/-- Behind a step that finds something or nothing. -/
theorem option {x : Parser (Option α)} {f : Option α → Parser β}
    {D : Option α → List Terminal → Prop} {N : List Terminal → β → List Terminal → Prop}
    {E : α → List Terminal → β → List Terminal → Prop} (hx : Reads x i D)
    (hnone : ∀ m, D none m → Reads (f none) m (N m))
    (hsome : ∀ a m, D (some a) m → Reads (f (some a)) m (E a m)) :
    Reads (x >>= f) i fun b o =>
      (∃ m, D none m ∧ N m b o) ∨ ∃ a m, D (some a) m ∧ E a m b o := by
  have both : Reads (x >>= f) i fun b o => ∃ found m, D found m ∧
      found.elim (N m b o) fun a => E a m b o :=
    bind hx fun found m h => by
      cases found with
      | none => exact hnone m h
      | some a => exact hsome a m h
  refine both.congr fun b o => ?_
  constructor
  · intro h
    rcases h with ⟨_ | a, m, found, more⟩
    · exact .inl ⟨m, found, more⟩
    · exact .inr ⟨a, m, found, more⟩
  · intro h
    rcases h with ⟨m, found, more⟩ | ⟨a, m, found, more⟩
    · exact ⟨none, m, found, more⟩
    · exact ⟨some a, m, found, more⟩

/-- Behind a step that answers a question. -/
theorem bool {x : Parser Bool} {f : Bool → Parser β} {D : Bool → List Terminal → Prop}
    {Y N : List Terminal → β → List Terminal → Prop} (hx : Reads x i D)
    (hyes : ∀ m, D true m → Reads (f true) m (Y m))
    (hno : ∀ m, D false m → Reads (f false) m (N m)) :
    Reads (x >>= f) i fun b o => (∃ m, D true m ∧ Y m b o) ∨ ∃ m, D false m ∧ N m b o := by
  have both : Reads (x >>= f) i fun b o => ∃ answer m, D answer m ∧ bif answer then Y m b o else N m b o :=
    bind hx fun answer m h => by
      cases answer with
      | true => exact hyes m h
      | false => exact hno m h
  refine both.congr fun b o => ?_
  constructor
  · intro h
    rcases h with ⟨_ | _, m, answer, more⟩
    · exact .inr ⟨m, answer, more⟩
    · exact .inl ⟨m, answer, more⟩
  · intro h
    rcases h with ⟨m, answer, more⟩ | ⟨m, answer, more⟩
    · exact ⟨true, m, answer, more⟩
    · exact ⟨false, m, answer, more⟩

/-- A production that has to find something. -/
theorem require {p : Production} {D : Option Tree → List Terminal → Prop} (hp : Reads p i D)
    (cause : SyntaxError) : Reads (require p cause) i fun t o => D (some t) o := by
  refine (option hp (fun m _ => reject cause) fun t m _ => pure t).congr fun t o => ?_
  constructor
  · intro h
    rcases h with ⟨m, _, ⟨⟩⟩ | ⟨t', m, found, rfl, rfl⟩
    exact found
  · intro found
    exact .inr ⟨t, o, found, rfl, rfl⟩

/-- An operand that is missing is found as an empty tree. -/
theorem leftOperand (lhs : Option Tree) :
    Reads (leftOperand lhs) i fun t o => t = operandOf lhs ∧ o = i := by
  cases lhs with
  | none => exact build .empty
  | some t => exact pure t

/-!
### Branches on the next terminal
-/

/-- A terminal that is read wherever it comes next. -/
theorem accept {t : Terminal} {f : Bool → Parser β} {E : List Terminal → β → List Terminal → Prop}
    {N : β → List Terminal → Prop} (hyes : ∀ m, i = t :: m → Reads (f true) m (E m))
    (hno : Starts (· == t) i = false → Reads (f false) i N) :
    Reads (accept t >>= f) i fun b o =>
      (∃ m, i = t :: m ∧ E m b o) ∨ (Starts (· == t) i = false ∧ N b o) := by
  cases i with
  | nil =>
      have absent : Reads (Parser.accept t) [] fun b o => b = false ∧ o = [] :=
        of_ok fun built => ⟨built, by simp [Parser.accept, State.free]⟩
      refine (after absent (hno rfl)).congr fun b o => ?_
      simp [Starts]
  | cons next rest =>
      by_cases same : next = t
      · subst same
        have present : Reads (Parser.accept next) (next :: rest) fun b o => b = true ∧ o = rest :=
          of_ok fun built => ⟨built, by simp [Parser.accept, State.free]⟩
        refine (after present (hyes rest rfl)).congr fun b o => ?_
        simp [Starts]
      · have absent : Reads (Parser.accept t) (next :: rest) fun b o => b = false ∧ o = next :: rest :=
          of_ok fun built => ⟨built, by simp [Parser.accept, State.free, same]⟩
        have other : Starts (· == t) (next :: rest) = false := by simp [Starts, same]
        refine (after absent (hno other)).congr fun b o => ?_
        simp [other, same]

/-- A terminal that has to come next. -/
theorem expect {t : Terminal} {cause : SyntaxError} {f : Unit → Parser β}
    {E : List Terminal → β → List Terminal → Prop}
    (h : ∀ m, i = t :: m → Reads (f ()) m (E m)) :
    Reads (Parser.expect t cause >>= f) i fun b o => ∃ m, i = t :: m ∧ E m b o := by
  have both : Reads (Parser.expect t cause) i fun _ o => i = t :: o := by
    refine (accept (fun m _ => pure ()) fun _ => reject cause).congr fun _ o => ?_
    constructor
    · intro h
      rcases h with ⟨m, input, _, rfl⟩ | ⟨_, ⟨⟩⟩
      exact input
    · intro input
      exact .inl ⟨o, input, rfl, rfl⟩
  refine (bind both fun _ m input => h m input).congr fun b o => ?_
  exact ⟨fun ⟨_, m, input, more⟩ => ⟨m, input, more⟩, fun ⟨m, input, more⟩ => ⟨(), m, input, more⟩⟩

/-- A terminal that is read wherever `g` makes something of it. -/
theorem take? {g : Terminal → Option α} {f : Option α → Parser β}
    {E : α → List Terminal → β → List Terminal → Prop} {N : β → List Terminal → Prop}
    (hyes : ∀ t a m, g t = some a → i = t :: m → Reads (f (some a)) m (E a m))
    (hno : Starts (fun t => (g t).isSome) i = false → Reads (f none) i N) :
    Reads (take? g >>= f) i fun b o =>
      (∃ t a m, g t = some a ∧ i = t :: m ∧ E a m b o) ∨
        (Starts (fun t => (g t).isSome) i = false ∧ N b o) := by
  cases i with
  | nil =>
      have absent : Reads (Parser.take? g) [] fun b o => b = none ∧ o = [] :=
        of_ok fun built => ⟨built, by simp [Parser.take?, State.free]⟩
      refine (after absent (hno rfl)).congr fun b o => ?_
      simp [Starts]
  | cons next rest =>
      cases made : g next with
      | none =>
          have absent : Reads (Parser.take? g) (next :: rest) fun b o => b = none ∧ o = next :: rest :=
            of_ok fun built => ⟨built, by simp [Parser.take?, State.free, made]⟩
          have other : Starts (fun t => (g t).isSome) (next :: rest) = false := by simp [Starts, made]
          refine (after absent (hno other)).congr fun b o => ⟨fun more => .inr ⟨other, more⟩, ?_⟩
          intro h
          rcases h with ⟨t, a, m, found, input, more⟩ | ⟨_, more⟩
          · cases input
            rw [made] at found
            cases found
          · exact more
      | some a =>
          have present : Reads (Parser.take? g) (next :: rest) fun b o => b = some a ∧ o = rest :=
            of_ok fun built => ⟨built, by simp [Parser.take?, State.free, made]⟩
          refine (after present (hyes next a rest made rfl)).congr fun b o =>
            ⟨fun more => .inl ⟨next, a, rest, made, rfl, more⟩, ?_⟩
          intro h
          rcases h with ⟨t, a', m, found, input, more⟩ | ⟨other, _⟩
          · cases input
            rw [made] at found
            cases found
            exact more
          · simp [Starts, made] at other

/-- A step that decides by the next terminal finds what both ways to go on find. -/
theorem take?_same {g : Terminal → Option α} {f : Option α → Parser β}
    {D : β → List Terminal → Prop}
    (hyes : ∀ t a m, g t = some a → i = t :: m → Reads (f (some a)) m D)
    (hno : Starts (fun t => (g t).isSome) i = false → Reads (f none) i D) :
    Reads (Parser.take? g >>= f) i D := by
  refine (take? (E := fun _ _ => D) hyes hno).congr fun b o => ?_
  constructor
  · intro h
    rcases h with ⟨_, _, _, _, _, found⟩ | ⟨_, found⟩
    · exact found
    · exact found
  · intro found
    cases i with
    | nil => exact .inr ⟨rfl, found⟩
    | cons t rest =>
        cases made : g t with
        | some a => exact .inl ⟨t, a, rest, made, rfl, found⟩
        | none => exact .inr ⟨by simp [Starts, made], found⟩

theorem peek {f : Option Terminal → Parser β} {E : β → List Terminal → Prop}
    (h : Reads (f i.head?) i E) : Reads (peek >>= f) i E :=
  after (of_ok fun built => ⟨built, rfl⟩) h

theorem skip {f : Unit → Parser β} {E : β → List Terminal → Prop} (h : Reads (f ()) i.tail E) :
    Reads (skip >>= f) i E :=
  after (of_ok fun built => ⟨built, rfl⟩) h

end Reads

end Parser

end BuildScript
