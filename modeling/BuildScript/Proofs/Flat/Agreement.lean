/-
Module: BuildScript.Proofs.Flat.Agreement
Layer: proofs about flat readings
Purpose: What a step that fills an arena has to do with the step that finds trees. The two agree if both fail
  in the same way at the same place, or both succeed, read the same and have as many nodes, and the one has
  put into the arena what the other has found, where laying it out would have put it. Sequencing keeps this.
Main exports: Flat.Agree, Flat.Fills, Agree.bind, Agree.read, Agree.alloc, Agree.isName, Fills.laid
-/
import BuildScript.Flat.Step
import BuildScript.Proofs.Arena.Layout
import BuildScript.Proofs.Grammar.Limit

namespace BuildScript

/-!
### Laying out step by step
-/

/-- Two steps of laying out are taken one after the other. -/
theorem Builder.bind_apply {α β : Type} {x : Builder α} {f : α → Builder β} {a b : Arena} {v : α}
    (h : x a = (v, b)) : (x >>= f) a = f v b := by
  simp only [bind, StateT.bind, h]

namespace Tree

variable {a b c : Arena}

/-- The first tree of a row is laid out in front of the others. -/
theorem layOutAll_cons {t : Tree} {ts : List Tree} {id : NodeId} {ids : List NodeId}
    (first : t.layOut a = (id, b)) (others : layOutAll ts b = (ids, c)) :
    layOutAll (t :: ts) a = (id :: ids, c) := by
  rw [layOutAll, Builder.bind_apply first, Builder.bind_apply others]
  rfl

theorem layOutAll_singleton {t : Tree} {id : NodeId} (h : t.layOut a = (id, b)) :
    layOutAll [t] a = ([id], b) :=
  layOutAll_cons h (by rw [layOutAll]; rfl)

theorem exists_cons_of_layOutAll {t : Tree} {ts : List Tree} {ids : List NodeId}
    (h : layOutAll (t :: ts) a = (ids, b)) : ∃ id others, ids = id :: others := by
  rw [layOutAll] at h
  obtain ⟨rfl, -⟩ := Prod.mk.inj h
  exact ⟨_, _, rfl⟩

theorem layOutOption_some {t : Tree} {id : NodeId} (h : t.layOut a = (id, b)) :
    layOutOption (some t) a = (some id, b) := by
  rw [layOutOption, Builder.bind_apply h]
  rfl

/-- Laying out what may be missing: either there is nothing, or there is a tree. -/
theorem layOutOption_cases {t? : Option Tree} {id? : Option NodeId} (h : layOutOption t? a = (id?, b)) :
    (t? = none ∧ id? = none ∧ b = a) ∨
      ∃ t id, t? = some t ∧ id? = some id ∧ t.layOut a = (id, b) := by
  cases t? with
  | none =>
      rw [layOutOption] at h
      cases h
      exact .inl ⟨rfl, rfl, rfl⟩
  | some t =>
      rw [layOutOption_some rfl] at h
      cases h
      exact .inr ⟨t, _, rfl, rfl, rfl⟩

/-- The node of a tree is the last one that laying it out adds, and a name if the tree is one. -/
theorem layOut_eq_add (t : Tree) (a : Arena) :
    ∃ (b : Arena) (node : Node), t.layOut a = b.add node ∧ node.isName = t.isName := by
  cases t <;> rw [layOut] <;> exact ⟨_, _, rfl, rfl⟩

/-- Whether a tree is a name shows at its node. -/
theorem isName_layOut {t : Tree} {id : NodeId} (h : t.layOut a = (id, b)) :
    (b.node? id).any Node.isName = t.isName := by
  obtain ⟨before, node, added, same⟩ := t.layOut_eq_add a
  obtain ⟨rfl, rfl⟩ := Prod.mk.inj (h.symm.trans added)
  simp [Arena.node?, same]

end Tree

namespace Flat

open BuildScript.Parser

variable {α β γ δ ε : Type}

/-- What a step comes to: a value or a failure, and where the reading then stands. -/
abbrev Outcome (β : Type) := EStateM.Result ParseError State β

/-- Where the reading stands at the end. -/
def Outcome.state : Outcome β → State
  | .ok _ s => s
  | .error _ s => s

/-- What is kept of a step: the state is dropped if it fails. -/
def Outcome.kept : Outcome β → Except ParseError (β × State)
  | .ok b s => .ok (b, s)
  | .error e _ => .error e

/-- The two outcomes stand at the same place, and are the same failure or values that `R` relates in the
    arena. -/
inductive Agree (R : α → β → Arena → Prop) : Parser.Outcome α → Outcome β → Prop where
  | ok {a : α} {b : β} {s : State} (related : R a b s.arena) : Agree R (.ok a s.counted) (.ok b s)
  | error (e : ParseError) (s : State) : Agree R (.error e s.counted) (.error e s)

/-- Wherever `y` starts, it does what `x` does and puts what `x` finds into the arena, as `lay` would. -/
def Fills (lay : α → Builder β) (x : Parser α) (y : Step β) : Prop :=
  ∀ s : State, Agree (fun a b arena => lay a s.arena = (b, arena)) (x s.counted) (y s)

/-- The step builds no node. -/
def Idle (x : Parser α) : Prop :=
  ∀ s : Parser.State, (Parser.Outcome.state (x s)).built = s.built ∧
    (Parser.Outcome.state (x s)).limit = s.limit

namespace Idle

/-- A step that looks at the input alone does not look at nodes. -/
theorem of_input {x : Parser α} (h : OfInput x) : Idle x := by
  obtain ⟨result, rest, -, run⟩ := h
  intro s
  rw [run s]
  cases result s.input <;> exact ⟨rfl, rfl⟩

/-- Idle steps in a row are idle. -/
theorem bind {x : Parser α} {f : α → Parser β} (hx : Idle x) (hf : ∀ a, Idle (f a)) :
    Idle (x >>= f) := by
  intro s
  have first := hx s
  cases run : x s with
  | ok a s' =>
      rw [run] at first
      rw [bind_apply_ok run]
      exact ⟨((hf a) s').1.trans first.1, ((hf a) s').2.trans first.2⟩
  | error e s' =>
      rw [run] at first
      rw [bind_apply_error run]
      exact first

theorem expect (t : Terminal) (cause : SyntaxError) : Idle (expect t cause) := by
  refine (of_input (.accept t)).bind fun found => ?_
  cases found with
  | true => exact of_input (.pure _)
  | false => exact of_input (.reject cause)

theorem continues (close : Punct) : Idle (Grammar.continues close) := by
  refine (of_input (.accept _)).bind fun found => ?_
  cases found with
  | true => exact (of_input .peek).bind fun _ => of_input (.pure _)
  | false => exact of_input (.pure _)

end Idle

namespace Agree

variable {R : α → β → Arena → Prop} {S : γ → δ → Arena → Prop} {s : State}

/-- Both readings have come to the same place. -/
theorem counted_state {x : Parser.Outcome α} {y : Outcome β} (h : Agree R x y) :
    y.state.counted = Parser.Outcome.state x := by
  cases h <;> rfl

/-- Where the arena has been filled, a tree has been found. -/
theorem of_ok {x : Parser.Outcome α} {b : β} (h : Agree R x (.ok b s)) :
    ∃ a, x = .ok a s.counted ∧ R a b s.arena := by
  cases h with
  | ok related => exact ⟨_, rfl, related⟩

/-- Where a tree has been found, the arena has been filled. -/
theorem exists_ok {a : α} {place : Parser.State} {y : Outcome β} (h : Agree R (.ok a place) y) :
    ∃ b s', y = .ok b s' ∧ s'.counted = place ∧ R a b s'.arena := by
  cases h with
  | ok related => exact ⟨_, _, rfl, rfl, related⟩

/-- Where filling the arena fails, so does finding a tree. -/
theorem of_error {x : Parser.Outcome α} {e : ParseError} (h : Agree R x (.error e s)) :
    x = .error e s.counted := by
  cases h
  rfl

/-- Where finding a tree fails, so does filling the arena. -/
theorem exists_error {e : ParseError} {place : Parser.State} {y : Outcome β}
    (h : Agree R (.error e place) y) : ∃ s', y = .error e s' ∧ s'.counted = place := by
  cases h
  exact ⟨_, rfl, rfl⟩

/-- What is found decides what is kept, if it is laid out from the same start. -/
theorem kept_eq {lay : α → Builder β} {start : Arena} {x : Parser.Outcome α} {y y' : Outcome β}
    (h : Agree (fun a b arena => lay a start = (b, arena)) x y)
    (h' : Agree (fun a b arena => lay a start = (b, arena)) x y') : y.kept = y'.kept := by
  cases h with
  | error e s =>
      obtain ⟨s', rfl, -⟩ := h'.exists_error
      rfl
  | @ok a b s laid =>
      obtain ⟨b', s', rfl, same, laid'⟩ := h'.exists_ok
      obtain ⟨rfl, arena⟩ := Prod.mk.inj (laid.symm.trans laid')
      have input : s'.input = s.input := congrArg Parser.State.input same
      cases s
      cases s'
      simp_all [Outcome.kept]

/-- Values that are related may be answered. -/
theorem pure {a : α} {b : β} (related : R a b s.arena) :
    Agree R ((Pure.pure a : Parser α) s.counted) ((Pure.pure b : Step β) s) :=
  .ok related

/-- Both readings fail at the same terminal. -/
theorem reject (cause : SyntaxError) :
    Agree R ((Parser.reject cause : Parser α) s.counted) (reading (Parser.reject cause : Parser β) s) :=
  .error (.rejected cause) s

/-- If what the second steps begin with is related, it is enough that they agree on it. -/
theorem bind {x : Parser α} {y : Step β} {f : α → Parser γ} {g : β → Step δ}
    (h : Agree R (x s.counted) (y s))
    (next : ∀ a b (s' : State), R a b s'.arena → Agree S (f a s'.counted) (g b s')) :
    Agree S ((x >>= f) s.counted) ((y >>= g) s) := by
  simp only [Bind.bind, EStateM.bind]
  generalize x s.counted = found at h ⊢
  generalize y s = filled at h ⊢
  cases h with
  | ok related => exact next _ _ _ related
  | error e s' => exact .error e s'

/-- A step that only reads finds the same in both readings and leaves the arena as it is. -/
theorem reading {x : Parser γ} (idle : Idle x) (s : State) :
    Agree (fun a b arena => b = a ∧ arena = s.arena) (x s.counted) (Flat.reading x s) := by
  have still := idle s.counted
  unfold Flat.reading
  cases run : x s.counted with
  | ok a after =>
      rw [run] at still
      rcases after with ⟨input, built, limit⟩
      obtain ⟨rfl, rfl⟩ := still
      exact Agree.ok (s := { s with input }) ⟨rfl, rfl⟩
  | error e after =>
      rw [run] at still
      rcases after with ⟨input, built, limit⟩
      obtain ⟨rfl, rfl⟩ := still
      exact Agree.error e { s with input }

/-- A step that both readings share leaves the arena alone. -/
theorem read {x : Parser ε} (idle : Idle x) {f : ε → Parser γ} {g : ε → Step δ}
    (next : ∀ (a : ε) (s' : State), s'.arena = s.arena → Agree S (f a s'.counted) (g a s')) :
    Agree S ((x >>= f) s.counted) ((liftM x >>= g) s) := by
  refine (reading idle s).bind fun a b s' h => ?_
  rw [h.1]
  exact next a s' h.2

/-- Building a node is putting it into the arena, and there is room for the one where there is for the other. -/
theorem alloc {t : Tree} {node : Node} {R : Tree → NodeId → Arena → Prop}
    (related : R t (s.arena.add node).1 (s.arena.add node).2) :
    Agree R (Parser.build t s.counted) (Flat.alloc node s) := by
  have same : s.counted.limit.any (· ≤ s.counted.built) = s.arena.isFull := by
    unfold Arena.isFull State.counted
    cases s.arena.maxNodes <;> rfl
  unfold Parser.build Flat.alloc Arena.push?
  rw [same]
  cases s.arena.isFull with
  | true => exact .error .outOfMemory s
  | false =>
      have counted : { s.counted with built := s.counted.built + 1 } =
          State.counted { s with arena := (s.arena.add node).2 } := by
        simp [State.counted, Arena.add]
      simp only [Bool.false_eq_true, if_false]
      rw [counted]
      exact .ok related

/-- Storing a list reads nothing and builds no node. -/
theorem allocList {x : Parser γ} {ids : List NodeId} {g : NodeRange → Step δ}
    (next : ∀ (range : NodeRange) (s' : State), Builder.list ids s.arena = (range, s'.arena) →
      Agree S (x s'.counted) (g range s')) :
    Agree S (x s.counted) ((Flat.allocList ids >>= g) s) :=
  next _ { s with arena := (s.arena.addList ids).2 } rfl

/-- Storing a text reads nothing and builds no node. -/
theorem allocText {x : Parser γ} {text : String} {g : TextId → Step δ}
    (next : ∀ (id : TextId) (s' : State), Builder.text text s.arena = (id, s'.arena) →
      Agree S (x s'.counted) (g id s')) :
    Agree S (x s.counted) ((Flat.allocText text >>= g) s) :=
  next _ { s with arena := (s.arena.addText text).2 } rfl

/-- Looking at a node that has just been put into the arena. -/
theorem isName {x : Parser γ} {t : Tree} {id : NodeId} {start : Arena} {g : Bool → Step δ}
    (laid : t.layOut start = (id, s.arena)) (next : Agree S (x s.counted) (g t.isName s)) :
    Agree S (x s.counted) ((Flat.isName id >>= g) s) := by
  rw [← Tree.isName_layOut laid] at next
  exact next

/-- Giving what has been found as the result of a production. -/
theorem found {x : Parser Tree} {y : Step NodeId} {start : Arena}
    (h : Agree (fun t id arena => t.layOut start = (id, arena)) (x s.counted) (y s)) :
    Agree (fun t? id? arena => Tree.layOutOption t? start = (id?, arena))
      ((do return some (← x) : BuildScript.Production) s.counted) ((do return some (← y) : Production) s) :=
  h.bind fun _ _ _ laid => .pure (Tree.layOutOption_some laid)

/-- What follows a production depends on whether it has found anything. -/
theorem bindOption {x : BuildScript.Production} {y : Production} {start : Arena}
    {f : Option Tree → Parser γ} {g : Option NodeId → Step δ}
    (h : Agree (fun t? id? arena => Tree.layOutOption t? start = (id?, arena)) (x s.counted) (y s))
    (none : ∀ s' : State, s'.arena = start → Agree S (f none s'.counted) (g none s'))
    (some : ∀ (t : Tree) (id : NodeId) (s' : State), t.layOut start = (id, s'.arena) →
      Agree S (f (some t) s'.counted) (g (some id) s')) :
    Agree S ((x >>= f) s.counted) ((y >>= g) s) := by
  refine h.bind fun t? id? s' laid => ?_
  obtain ⟨rfl, rfl, same⟩ | ⟨t, id, rfl, rfl, found⟩ := Tree.layOutOption_cases laid
  · exact none s' same
  · exact some t id s' found

end Agree

/-!
### Derived steps
-/

/-- A tree that must be there lies in the arena. -/
theorem fills_require {x : BuildScript.Production} {y : Production}
    (h : Fills Tree.layOutOption x y) (cause : SyntaxError) :
    Fills Tree.layOut (Parser.require x cause) (require y cause) :=
  fun s => (h s).bindOption (fun _ _ => .reject cause) fun _ _ _ laid => .pure laid

/-- The operand on the left lies where it has been put, or is put there now. -/
theorem agree_leftOperand {t? : Option Tree} {id? : Option NodeId} {start : Arena} {s : State}
    (laid : Tree.layOutOption t? start = (id?, s.arena)) :
    Agree (fun t id arena => t.layOut start = (id, arena)) (Parser.leftOperand t? s.counted)
      (leftOperand id? s) := by
  obtain ⟨rfl, rfl, same⟩ | ⟨t, id, rfl, rfl, found⟩ := Tree.layOutOption_cases laid
  · refine .alloc ?_
    rw [Tree.layOut, same]
    rfl
  · exact .pure found

/-!
### What is left in the arena
-/

/-- A step that fills the arena leaves the nodes of one tree behind what was there: in post-order, with their
    lists and texts in the same order, and nothing else. -/
theorem Fills.laid {x : Parser Tree} {y : Step NodeId} (h : Fills Tree.layOut x y) {s s' : State}
    {id : NodeId} (run : y s = .ok id s') : ∃ t, Arena.Laid s.arena [t] [id] s'.arena := by
  have agree := h s
  rw [run] at agree
  obtain ⟨t, -, laid⟩ := agree.of_ok
  have placed := laid_layOut t s.arena
  rw [laid] at placed
  exact ⟨t, placed⟩

/-- Where a production that fills an arena finds nothing, so does the one for trees, and the arena is as it was. -/
theorem Fills.of_none {x : BuildScript.Production} {y : Production} (h : Fills Tree.layOutOption x y)
    {s s' : State} (run : y s = .ok none s') :
    x s.counted = .ok none s'.counted ∧ s'.arena = s.arena := by
  have agree := h s
  rw [run] at agree
  obtain ⟨t?, found, laid⟩ := agree.of_ok
  obtain ⟨rfl, -, same⟩ | ⟨t, id, -, some_id, -⟩ := Tree.layOutOption_cases laid
  · exact ⟨found, same⟩
  · cases some_id

/-- Where no tree has been found, none has been laid out. -/
theorem Fills.exists_none {x : BuildScript.Production} {y : Production} (h : Fills Tree.layOutOption x y)
    {s : State} {place : Parser.State} (found : x s.counted = .ok none place) : ∃ s', y s = .ok none s' := by
  have agree := h s
  rw [found] at agree
  obtain ⟨id?, s', filled, -, laid⟩ := agree.exists_ok
  obtain ⟨-, rfl, -⟩ | ⟨t, id, some_t, -⟩ := Tree.layOutOption_cases laid
  · exact ⟨s', filled⟩
  · cases some_t

/-- Where it finds something, it leaves the nodes of that tree behind what was there. -/
theorem Fills.laid_some {x : BuildScript.Production} {y : Production} (h : Fills Tree.layOutOption x y)
    {s s' : State} {id : NodeId} (run : y s = .ok (some id) s') :
    ∃ t, x s.counted = .ok (some t) s'.counted ∧ Arena.Laid s.arena [t] [id] s'.arena := by
  have agree := h s
  rw [run] at agree
  obtain ⟨t?, found, laid⟩ := agree.of_ok
  obtain ⟨-, none_id, -⟩ | ⟨t, id, rfl, same, laid⟩ := Tree.layOutOption_cases laid
  · cases none_id
  · cases same
    have placed := laid_layOut t s.arena
    rw [laid] at placed
    exact ⟨t, found, placed⟩

end Flat

end BuildScript
