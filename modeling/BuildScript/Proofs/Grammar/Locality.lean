/-
Module: BuildScript.Proofs.Grammar.Locality
Layer: proofs about the grammar
Purpose: A reading looks no further than the first terminal that it leaves. A step is `Local` when it takes
  terminals from the front of the input only, and comes to the same on every other input that agrees
  with this one on what it takes and on one terminal more. Sequencing keeps this.
Main exports: Parser.Local, Parser.Local.program
-/
import BuildScript.Proofs.Grammar.Composition
import BuildScript.Proofs.Grammar.Limit

namespace BuildScript

namespace Parser

variable {α β : Type}

/-- The same state in front of other terminals. -/
def State.before (s : State) (input : List Terminal) : State :=
  { s with input }

/-- The same outcome, with other terminals left. -/
def Outcome.before (input : List Terminal) : Outcome α → Outcome α
  | .ok a s => .ok a (s.before input)
  | .error e s => .error e (s.before input)

/-- In the state `s` the step takes `k` terminals, and looks at no more than one behind them. -/
structure Takes (x : Parser α) (s : State) (k : Nat) : Prop where
  inside : k ≤ s.input.length
  rest : (Outcome.state (x s)).input = s.input.drop k
  same : ∀ other, other.take (k + 1) = s.input.take (k + 1) →
    x (s.before other) = Outcome.before (other.drop k) (x s)

/-- In every state the step takes terminals from the front and looks at no more than one behind them. -/
def Local (x : Parser α) : Prop :=
  ∀ s : State, ∃ k, x.Takes s k

namespace Local

/-- A step that does not touch the input. -/
theorem of_untouched {x : Parser α} (untouched : ∀ (s : State) (other : List Terminal),
    (Outcome.state (x s)).input = s.input ∧ x (s.before other) = Outcome.before other (x s)) : Local x :=
  fun s => ⟨0, Nat.zero_le _, (untouched s []).1, fun other _ => (untouched s other).2⟩

/-- What is answered without looking at the input is answered in front of any input. -/
theorem pure (a : α) : Local (Pure.pure a : Parser α) :=
  of_untouched fun _ _ => ⟨rfl, rfl⟩

theorem reject (cause : SyntaxError) : Local (reject cause : Parser α) :=
  of_untouched fun _ _ => ⟨rfl, rfl⟩

/-- Whether a node can be built depends on how many there are, and not on the input. -/
theorem build (t : Tree) : Local (build t) := by
  refine of_untouched fun s other => ?_
  unfold Parser.build
  by_cases full : s.limit.any (· ≤ s.built) = true
  · rw [if_pos full]
    exact ⟨rfl, if_pos full⟩
  · rw [if_neg full]
    exact ⟨rfl, if_neg full⟩

/-- A step whose outcome the first terminal decides, and which takes it or leaves it. -/
theorem of_first {x : Parser α} (nil : ∃ a, ∀ s : State, s.input = [] → x s = .ok a s)
    (cons : ∀ t, ∃ a, (∀ s rest, s.input = t :: rest → x s = .ok a (s.before rest)) ∨
      ∀ s rest, s.input = t :: rest → x s = .ok a s) : Local x := by
  intro s
  have opened {other rest : List Terminal} {t : Terminal} {k : Nat}
      (agree : other.take (k + 1) = (t :: rest).take (k + 1)) : ∃ others, other = t :: others := by
    cases other with
    | nil => cases agree
    | cons u others => exact ⟨others, by rw [(List.cons.inj agree).1]⟩
  cases input : s.input with
  | nil =>
      obtain ⟨a, found⟩ := nil
      refine ⟨0, Nat.zero_le _, by rw [found s input]; rfl, fun other agree => ?_⟩
      obtain rfl : other = [] := by simpa [input] using agree
      rw [found s input, found (s.before []) rfl]
      rfl
  | cons t rest =>
      obtain ⟨a, taken | left⟩ := cons t
      · refine ⟨1, by simp [input], by rw [taken s rest input, input]; rfl, fun other agree => ?_⟩
        obtain ⟨others, rfl⟩ := opened (input ▸ agree)
        rw [taken s rest input, taken (s.before _) others rfl]
        rfl
      · refine ⟨0, Nat.zero_le _, by rw [left s rest input]; rfl, fun other agree => ?_⟩
        obtain ⟨others, rfl⟩ := opened (input ▸ agree)
        rw [left s rest input, left (s.before _) others rfl]
        rfl

/-- Looking at a terminal is looking at the first that is left. -/
theorem peek : Local peek :=
  of_first ⟨none, fun s input => by rw [Parser.peek, input]; rfl⟩
    fun t => ⟨some t, .inr fun s rest input => by rw [Parser.peek, input]; rfl⟩

theorem skip : Local skip := by
  refine of_first ⟨(), fun s input => ?_⟩ fun t => ⟨(), .inl fun s rest input => ?_⟩
  · obtain ⟨_, built, limit⟩ := s
    cases input
    rfl
  · rw [Parser.skip, input]
    rfl

/-- The terminal that is accepted or left is the only one that is looked at. -/
theorem accept (t : Terminal) : Local (accept t) := by
  refine of_first ⟨false, fun s input => by simp [Parser.accept, input]⟩ fun next => ?_
  by_cases same : next = t
  · exact ⟨true, .inl fun s rest input => by simp [Parser.accept, input, same, State.before]⟩
  · exact ⟨false, .inr fun s rest input => by simp [Parser.accept, input, same]⟩

/-- The terminal that is taken or left is the only one that is looked at. -/
theorem take? (f : Terminal → Option α) : Local (take? f) := by
  refine of_first ⟨none, fun s input => by simp [Parser.take?, input]⟩ fun next => ?_
  cases made : f next with
  | some a => exact ⟨some a, .inl fun s rest input => by simp [Parser.take?, input, made, State.before]⟩
  | none => exact ⟨none, .inr fun s rest input => by simp [Parser.take?, input, made]⟩

/-- The one terminal that the first step looks at behind those it takes is the first that the second step may
    take. -/
theorem bind {x : Parser α} {f : α → Parser β} (hx : Local x) (hf : ∀ a, Local (f a)) :
    Local (x >>= f) := by
  intro s
  obtain ⟨k, inside, rest, same⟩ := hx s
  cases run : x s with
  | error e s' =>
      rw [run] at rest same
      refine ⟨k, inside, by rw [bind_apply_error run]; exact rest, fun other agree => ?_⟩
      rw [bind_apply_error run, bind_apply_error (same other agree)]
      rfl
  | ok a s' =>
      rw [run] at rest same
      obtain ⟨l, inside', rest', same'⟩ := hf a s'
      have rest : s'.input = s.input.drop k := rest
      rw [rest] at inside' rest' same'
      -- The other input agrees with what `x` takes and one terminal more, and behind that with what is taken
      -- by the second step.
      refine ⟨k + l, ?_, ?_, fun other agree => ?_⟩
      · rw [List.length_drop] at inside'
        omega
      · rw [bind_apply_ok run, rest', List.drop_drop]
      · have front : other.take (k + 1) = s.input.take (k + 1) := by
          simpa [List.take_take] using congrArg (List.take (k + 1)) agree
        have behind : (other.drop k).take (l + 1) = (s.input.drop k).take (l + 1) := by
          simpa [List.drop_take, Nat.add_assoc] using congrArg (List.drop k) agree
        have first : x (s.before other) = .ok a (s'.before (other.drop k)) := same other front
        rw [bind_apply_ok run, bind_apply_ok first, same' _ behind, List.drop_drop]

/-- All that productions are composed of is local. -/
theorem compositional : Compositional @Local where
  pure := pure
  bind := bind
  peek := peek
  skip := skip
  accept := accept
  take? := take?
  reject := reject
  build := build

/-- Reading a program is local, with any bound. -/
theorem program (bound : Nat) : Local (Grammar.program bound) :=
  compositional.program bound

end Local

end Parser

end BuildScript
