/-
Module: BuildScript.Proofs.Grammar.Cutoff
Layer: proofs about the grammar
Purpose: Where a reading stands at its end, whatever limit it has and whatever it comes to. A step takes
  terminals from the front only, takes no node back and leaves the limit alone. Unless it runs out of memory
  it comes to the same without a limit; and if it does, it stands in front of a terminal where it would have
  come by without one, on the way to building a node.
Main exports: Parser.State.unlimited, Parser.Cutoff, Parser.Cutoff.compositional
-/
import BuildScript.Proofs.Grammar.Limit

namespace BuildScript.Parser

variable {α β : Type}

/-- The same state without a limit. -/
def State.unlimited (s : State) : State :=
  { s with limit := none }

/-- From any state, the step comes as far as it does without a limit, or runs out of memory on the way. -/
structure Cutoff (x : Parser α) : Prop where
  suffix : ∀ s : State, (Outcome.state (x s)).input <:+ s.input
  built : ∀ s : State, s.built ≤ (Outcome.state (x s)).built
  limit : ∀ s : State, (Outcome.state (x s)).limit = s.limit
  ok : ∀ {s s' : State} {a : α}, x s = .ok a s' → x s.unlimited = .ok a s'.unlimited
  rejected : ∀ {s s' : State} {cause : SyntaxError}, x s = .error (.rejected cause) s' →
    x s.unlimited = .error (.rejected cause) s'.unlimited
  memory : ∀ {s s' : State}, x s = .error .outOfMemory s' → s.limit ≠ none
  short : ∀ {s s' : State}, x s = .error .outOfMemory s' →
    s.built < (Outcome.state (x s.unlimited)).built ∧
      (Outcome.state (x s.unlimited)).input <:+ s'.input

namespace Cutoff

/-- A step that builds nothing does not notice whether there is a limit. -/
theorem of_input {x : Parser α} (h : OfInput x) : Cutoff x := by
  obtain ⟨result, rest, suffix, h⟩ := h
  refine ⟨fun s => ?_, fun s => ?_, fun s => ?_, fun {s s' a} run => ?_, fun {s s' cause} run => ?_,
    fun {s s'} run => ?_, fun {s s'} run => ?_⟩
  · rw [h s]
    cases result s.input <;> exact suffix s.input
  · rw [h s]
    cases result s.input <;> exact Nat.le_refl _
  · rw [h s]
    cases result s.input <;> rfl
  all_goals
    rw [h s] at run
    have free : x s.unlimited = _ := h s.unlimited
    rw [State.unlimited] at free
    cases found : result s.input with
    | ok a =>
        rw [found] at run free
        cases run <;> exact free
    | error cause =>
        rw [found] at run free
        cases run <;> exact free

/-- Without a limit one more node would have been built, in front of the same terminals. -/
theorem build (t : Tree) : Cutoff (build t) := by
  refine ⟨fun s => ?_, fun s => ?_, fun s => ?_, fun {s s' a} run => ?_, fun {s s' cause} run => ?_,
    fun {s s'} run => ?_, fun {s s'} run => ?_⟩
  · unfold Parser.build
    split <;> exact List.suffix_refl _
  · unfold Parser.build
    split
    · exact Nat.le_refl _
    · exact Nat.le_succ _
  · unfold Parser.build
    split <;> rfl
  all_goals
    unfold Parser.build at run
    split at run
    all_goals cases run
  · rfl
  · rename_i full
    rintro unlimited
    rw [unlimited] at full
    cases full
  · exact ⟨Nat.lt_succ_self _, List.suffix_refl _⟩

/-- Memory may run out in either step, and without a limit the reading would have come by there. -/
theorem bind {x : Parser α} {f : α → Parser β} (hx : Cutoff x) (hf : ∀ a, Cutoff (f a)) :
    Cutoff (x >>= f) where
  suffix s :=
    (state_bind (R := fun s s' => s'.input <:+ s.input) (fun _ => List.suffix_refl _) x
      (fun a => (hf a).suffix) s).trans (hx.suffix s)
  built s :=
    Nat.le_trans (hx.built s) (state_bind (R := fun s s' => s.built ≤ s'.built) (fun _ => Nat.le_refl _) x
      (fun a => (hf a).built) s)
  limit s :=
    (state_bind (R := fun s s' => s'.limit = s.limit) (fun _ => rfl) x (fun a => (hf a).limit) s).trans
      (hx.limit s)
  ok {s s' b} run := by
    obtain ⟨a, s1, first, second⟩ := bind_inv_ok run
    rw [bind_apply_ok (hx.ok first)]
    exact (hf a).ok second
  rejected {s s' cause} run := by
    obtain first | ⟨a, s1, first, second⟩ := bind_inv_error run
    · exact bind_apply_error (hx.rejected first)
    · rw [bind_apply_ok (hx.ok first)]
      exact (hf a).rejected second
  memory {s s'} run := by
    obtain first | ⟨a, s1, first, second⟩ := bind_inv_error run
    · exact hx.memory first
    · have same := hx.limit s
      rw [first] at same
      exact same ▸ (hf a).memory second
  short {s s'} run := by
    obtain first | ⟨a, s1, first, second⟩ := bind_inv_error run
    · -- Without a limit the second step may be taken too, which only builds and reads on.
      obtain ⟨more, behind⟩ := hx.short first
      have on := state_bind (R := fun s s' => s.built ≤ s'.built ∧ s'.input <:+ s.input)
        (fun _ => ⟨Nat.le_refl _, List.suffix_refl _⟩) x
        (fun a t => ⟨(hf a).built t, (hf a).suffix t⟩) s.unlimited
      exact ⟨Nat.lt_of_lt_of_le more on.1, on.2.trans behind⟩
    · rw [bind_apply_ok (hx.ok first)]
      obtain ⟨more, behind⟩ := (hf a).short second
      have before := hx.built s
      rw [first] at before
      exact ⟨Nat.lt_of_le_of_lt before more, behind⟩

/-- Every production is cut off by a limit at the most. -/
theorem compositional : Compositional @Cutoff :=
  .of_input of_input bind build

end Cutoff

end BuildScript.Parser
