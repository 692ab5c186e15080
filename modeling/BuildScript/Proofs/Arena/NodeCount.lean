/-
Module: BuildScript.Proofs.Arena.NodeCount
Layer: proofs about arenas
Purpose: How many nodes a program is made of, in any arena: nodes may be shared, belong to no program, or
  refer to each other in circles. The count is the number of nodes that can be come to from the root, and
  there is none exactly if one of them refers to something that the arena does not hold.
Main exports: Arena.Dangling, children?_eq_none_iff, nodeCount?_eq_card
-/
import BuildScript.Proofs.Arena.Layout
import BuildScript.Proofs.Arena.Reach
import Mathlib.Data.Finset.Card
import Mathlib.Data.Finset.Range

namespace BuildScript.Arena

variable {a : Arena} {root id : NodeId}

/-!
### References to nothing
-/

/-- The number belongs to no node, or to a node with a child list that is not in the list storage. -/
inductive Dangling (a : Arena) (id : NodeId) : Prop where
  | outside (beyond : a.nodes.size ≤ id.index)
  | range {node : Node} {r : NodeRange} (here : a.node? id = some node) (listed : r ∈ node.ranges)
      (beyond : a.lists.size < r.stop)

/-- A range is one of no list when it ends behind all that is stored. -/
theorem list?_eq_none_iff {r : NodeRange} : a.list? r = none ↔ a.lists.size < r.stop := by
  simp [list?]

/-- The parts of a node are missing when one of its lists is. -/
theorem parts?_eq_none_iff {node : Node} :
    a.parts? node = none ↔ ∃ r ∈ node.ranges, a.lists.size < r.stop := by
  simp only [← list?_eq_none_iff]
  cases node with
  | conditional clauses otherwise => cases h : a.list? clauses <;> simp [parts?, Node.ranges, h]
  | foreach vars iterable body => cases h : a.list? vars <;> simp [parts?, Node.ranges, h]
  | application callee args kwargs =>
      cases h : a.list? args <;> cases h' : a.list? kwargs <;> simp [parts?, Node.ranges, h, h']
  | _ => simp [parts?, Node.ranges]

/-- A number is that of no node when it is too large. -/
theorem node?_eq_none_iff : a.node? id = none ↔ a.nodes.size ≤ id.index :=
  Array.getElem?_eq_none_iff

/-- The parts of a node are not found exactly if its number or one of its lists points nowhere. -/
theorem children?_eq_none_iff : a.children? id = none ↔ a.Dangling id := by
  constructor
  · intro lost
    cases here : a.node? id with
    | none => exact .outside (node?_eq_none_iff.mp here)
    | some node =>
        have lost : a.parts? node = none := by rwa [children?, here] at lost
        obtain ⟨r, listed, beyond⟩ := parts?_eq_none_iff.mp lost
        exact .range here listed beyond
  · rintro (beyond | ⟨here, listed, beyond⟩)
    · rw [children?, node?_eq_none_iff.mpr beyond]
      rfl
    · rw [children?, here]
      exact parts?_eq_none_iff.mpr ⟨_, listed, beyond⟩

/-!
### The count
-/

/-- In every arena and from every root: if no number and no list met on the way points nowhere, the count is
    the number of nodes that can be come to, each counted once; if one does, there is no count. -/
theorem nodeCount?_eq_card (a : Arena) (root : NodeId) :
    ((∀ id, a.Reaches root id → ¬ a.Dangling id) →
      ∃ found : Finset NodeId, (∀ id, id ∈ found ↔ a.Reaches root id) ∧
        a.nodeCount? root = some found.card) ∧
    ((∃ id, a.Reaches root id ∧ a.Dangling id) → a.nodeCount? root = none) := by
  constructor
  · intro sound
    apply nodeCount?_of_whole
    intro id reaches
    rw [← Option.ne_none_iff_exists']
    exact fun lost => sound id reaches (children?_eq_none_iff.mp lost)
  · rintro ⟨id, reaches, dangling⟩
    cases counted : a.nodeCount? root with
    | none => rfl
    | some n =>
        obtain ⟨parts, found⟩ := whole_of_nodeCount? counted reaches
        rw [children?_eq_none_iff.mpr dangling] at found
        cases found

/-- Two nodes that refer to each other, the second one twice to the first and also to itself; a node that
    belongs to no program; and one whose list goes beyond the list storage. -/
def circle : Arena where
  nodes := #[.unary .not ⟨1⟩, .array ⟨0, 3⟩, .empty, .array ⟨1, 3⟩]
  lists := #[⟨0⟩, ⟨0⟩, ⟨1⟩]
  texts := #[]
  maxNodes := none

/-- Nothing leads out of the circle. -/
theorem reaches_circle (reaches : circle.Reaches root id) (inside : root.index < 2) : id.index < 2 := by
  induction reaches with
  | refl => exact inside
  | @step x part _ part_of onward ih =>
      obtain ⟨parts, found, member⟩ := part_of
      have closed : ∀ i < 2, ∃ parts, circle.children? ⟨i⟩ = some parts ∧ ∀ y ∈ parts, y.index < 2 := by
        decide
      obtain ⟨parts', found', each⟩ := closed x.index inside
      obtain rfl := Option.some.inj (found.symm.trans found')
      exact ih (each part member)

theorem nodeCount?_eq_card_circle :
    (∀ id, circle.Reaches ⟨0⟩ id → ¬ circle.Dangling id) ∧
    (∃ found : Finset NodeId, (∀ id, id ∈ found ↔ circle.Reaches ⟨0⟩ id) ∧
      circle.nodeCount? ⟨0⟩ = some found.card) ∧
    circle.nodeCount? ⟨0⟩ = some 2 ∧
    circle.nodeCount? ⟨3⟩ = none := by
  have sound : ∀ id, circle.Reaches ⟨0⟩ id → ¬ circle.Dangling id := by
    intro id reaches dangling
    have here : ∀ i < 2, circle.children? ⟨i⟩ ≠ none := by decide
    exact here id.index (reaches_circle reaches (by decide)) (children?_eq_none_iff.mpr dangling)
  refine ⟨sound, (nodeCount?_eq_card circle ⟨0⟩).1 sound, by cbv, ?_⟩
  exact (nodeCount?_eq_card circle ⟨3⟩).2
    ⟨⟨3⟩, .refl _, .range rfl (List.mem_singleton_self _) (by decide)⟩

end BuildScript.Arena
