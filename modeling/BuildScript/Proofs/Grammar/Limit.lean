/-
Module: BuildScript.Proofs.Grammar.Limit
Layer: proofs about the grammar
Purpose: What a limit on nodes does to a reading. A step of a reading is `Bounded` when a limit leaves its
  outcome as it is as long as the nodes that it builds fit, and otherwise makes it run out of memory,
  whatever it would have come to. Sequencing keeps this, so every production has it.
Main exports: Parser.OfInput, Parser.Bounded, Parser.Bounded.program
-/
import BuildScript.Proofs.Grammar.Composition

namespace BuildScript

namespace Parser

variable {α β : Type}

/-- What a step comes to: a value or a failure, and where the reading then stands. -/
abbrev Outcome (α : Type) := EStateM.Result ParseError State α

namespace Outcome

/-- Where the reading stands at the end. -/
def state : Outcome α → State
  | .ok _ s => s
  | .error _ s => s

/-- The same outcome in a reading with the limit `n`. -/
def limited (n : Nat) : Outcome α → Outcome α
  | .ok a s => .ok a { s with limit := some n }
  | .error e s => .error e { s with limit := some n }

/-- Whether `limited` is what the limit `n` makes of the outcome `free`. -/
structure Under (n : Nat) (free limited : Outcome α) : Prop where
  fits : free.state.built ≤ n → limited = free.limited n
  overflows : n < free.state.built → ∃ s, limited = .error .outOfMemory s

end Outcome

/-- Without a limit the step never runs out of memory and takes no node back; with one it comes to the
    same unless it builds too many nodes. -/
structure Bounded (x : Parser α) : Prop where
  free_limit : ∀ s : State, s.limit = none → (Outcome.state (x s)).limit = none
  free_built : ∀ s : State, s.limit = none → s.built ≤ (Outcome.state (x s)).built
  free_memory : ∀ s s' : State, s.limit = none → x s ≠ .error .outOfMemory s'
  under : ∀ (s : State) (n : Nat), s.limit = none → s.built ≤ n →
    Outcome.Under n (x s) (x { s with limit := some n })

/-- What the second step of a sequence does to the state is all that is done behind the first. -/
theorem state_bind {R : State → State → Prop} (refl : ∀ s, R s s) (x : Parser α) {f : α → Parser β}
    (hf : ∀ a s, R s (Outcome.state (f a s))) (s : State) :
    R (Outcome.state (x s)) (Outcome.state ((x >>= f) s)) := by
  cases first : x s with
  | ok a s1 =>
      rw [bind_apply_ok first]
      exact hf a s1
  | error e s1 =>
      rw [bind_apply_error first]
      exact refl s1

/-- The step looks at the input alone, takes terminals from the front of it and builds nothing. -/
def OfInput (x : Parser α) : Prop :=
  ∃ (result : List Terminal → Except SyntaxError α) (rest : List Terminal → List Terminal),
    (∀ input, rest input <:+ input) ∧ ∀ s : State, x s = match result s.input with
      | .ok a => .ok a { s with input := rest s.input }
      | .error cause => .error (.rejected cause) { s with input := rest s.input }

namespace OfInput

/-- Answering takes nothing. -/
theorem pure (a : α) : OfInput (Pure.pure a : Parser α) :=
  ⟨fun _ => .ok a, fun input => input, fun input => List.suffix_refl input, fun _ => rfl⟩

theorem peek : OfInput peek :=
  ⟨fun input => .ok input.head?, fun input => input, fun input => List.suffix_refl input, fun _ => rfl⟩

/-- Skipping drops the first terminal, if there is one. -/
theorem skip : OfInput skip :=
  ⟨fun _ => .ok (), List.tail, List.tail_suffix, fun _ => rfl⟩

theorem reject (cause : SyntaxError) : OfInput (reject cause : Parser α) :=
  ⟨fun _ => .error cause, fun input => input, fun input => List.suffix_refl input, fun _ => rfl⟩

/-- A step that takes the first terminal if it is one that `p` admits. -/
theorem of_first {x : Parser α} (p : List Terminal → Bool) (result : List Terminal → α)
    (h : ∀ s : State, x s =
      .ok (result s.input) { s with input := if p s.input then s.input.tail else s.input }) :
    OfInput x := by
  refine ⟨fun input => .ok (result input), fun input => if p input then input.tail else input,
    fun input => ?_, h⟩
  dsimp only
  split
  · exact List.tail_suffix input
  · exact List.suffix_refl input

/-- Accepting takes the terminal or leaves it, and answers which. -/
theorem accept (t : Terminal) : OfInput (accept t) := by
  refine of_first (fun input => input.head? = some t) (fun input => input.head? == some t) fun s => ?_
  rcases s with ⟨_ | ⟨next, rest⟩, built, limit⟩
  · rfl
  · by_cases same : next = t <;> simp [Parser.accept, same]

/-- Whether a terminal is taken depends on the first alone. -/
theorem take? (f : Terminal → Option α) : OfInput (take? f) := by
  refine of_first (fun input => (input.head?.bind f).isSome) (fun input => input.head?.bind f) fun s => ?_
  rcases s with ⟨_ | ⟨next, rest⟩, built, limit⟩
  · rfl
  · cases found : f next <;> simp [Parser.take?, found]

end OfInput

/-- All basic steps but the building of nodes look at the input alone. -/
theorem Compositional.of_input {P : ∀ {α : Type}, Parser α → Prop}
    (of_input : ∀ {α : Type} {x : Parser α}, OfInput x → P x)
    (bind : ∀ {α β : Type} {x : Parser α} {f : α → Parser β}, P x → (∀ a, P (f a)) → P (x >>= f))
    (build : ∀ t, P (Parser.build t)) : Compositional P where
  pure a := of_input (.pure a)
  bind := bind
  peek := of_input .peek
  skip := of_input .skip
  accept t := of_input (.accept t)
  take? f := of_input (.take? f)
  reject cause := of_input (.reject cause)
  build := build

namespace Bounded

/-- A step that builds nothing comes to the same with any limit. -/
theorem of_input {x : Parser α} (h : OfInput x) : Bounded x := by
  obtain ⟨result, rest, -, h⟩ := h
  constructor
  · intro s hs
    rw [h s]
    cases result s.input <;> exact hs
  · intro s hs
    rw [h s]
    cases result s.input <;> exact Nat.le_refl _
  · intro s s' hs
    rw [h s]
    cases result s.input <;> simp
  · intro s n hs hn
    rw [h s, h { s with limit := some n }]
    cases result s.input <;> exact ⟨fun _ => rfl, fun beyond => absurd hn (Nat.not_le.mpr beyond)⟩

/-- A node is built if it is within the limit, and memory runs out otherwise. -/
theorem build (t : Tree) : Bounded (build t) where
  free_limit s hs := by simp [Parser.build, hs, Outcome.state]
  free_built s hs := by simp [Parser.build, hs, Outcome.state]
  free_memory s s' hs := by simp [Parser.build, hs]
  under s n hs hn := by
    have free : Parser.build t s = .ok t { s with built := s.built + 1 } := by
      simp [Parser.build, hs]
    rw [free]
    constructor
    · intro fits
      have room : ¬ n ≤ s.built := Nat.not_le.mpr fits
      simp [Parser.build, room, Outcome.limited]
    · intro beyond
      have full : n ≤ s.built := Nat.le_of_lt_succ beyond
      exact ⟨{ s with limit := some n }, by simp [Parser.build, full]⟩

/-- If the first step fits under the limit, then what decides is whether the second does. -/
theorem bind {x : Parser α} {f : α → Parser β} (hx : Bounded x) (hf : ∀ a, Bounded (f a)) :
    Bounded (x >>= f) where
  free_limit s hs :=
    state_bind (R := fun s s' => s.limit = none → s'.limit = none) (fun _ => id) x (fun a => (hf a).free_limit)
      s (hx.free_limit s hs)
  free_built s hs :=
    Nat.le_trans (hx.free_built s hs)
      (state_bind (R := fun s s' => s.limit = none → s.built ≤ s'.built) (fun _ _ => Nat.le_refl _) x
        (fun a => (hf a).free_built) s (hx.free_limit s hs))
  free_memory s s' hs run := by
    obtain first | ⟨a, s1, first, second⟩ := bind_inv_error run
    · exact hx.free_memory s s' hs first
    · have limit := hx.free_limit s hs
      rw [first] at limit
      exact (hf a).free_memory s1 s' limit second
  under s n hs hn := by
    have limit := hx.free_limit s hs
    have under := hx.under s n hs hn
    cases hrun : x s with
    | error e s1 =>
        rw [hrun] at under
        rw [bind_apply_error hrun]
        constructor
        · intro fits
          exact bind_apply_error (under.fits fits)
        · intro beyond
          obtain ⟨s2, h2⟩ := under.overflows beyond
          exact ⟨s2, bind_apply_error h2⟩
    | ok a s1 =>
        rw [hrun] at under limit
        rw [bind_apply_ok hrun]
        have grows : s1.built ≤ (Outcome.state (f a s1)).built := (hf a).free_built s1 limit
        by_cases first : s1.built ≤ n
        · rw [bind_apply_ok (under.fits first)]
          exact (hf a).under s1 n limit first
        · -- The first part overflows already, and the second can only add to that.
          obtain ⟨s2, h2⟩ := under.overflows (Nat.not_le.mp first)
          rw [bind_apply_error h2]
          exact ⟨fun fits => absurd (Nat.le_trans grows fits) first, fun _ => ⟨s2, rfl⟩⟩

/-- Every production is bounded. -/
theorem compositional : Compositional @Bounded :=
  .of_input of_input bind build

/-- The reading of a program with a limit is that without one, cut off where the limit is exceeded. -/
theorem program (bound : Nat) : Bounded (Grammar.program bound) :=
  compositional.program bound

end Bounded

end Parser

end BuildScript
