/-
Module: BuildScript.Proofs.Arena.Unfold
Layer: proofs about arenas
Purpose: The tree of a node in an arena that was put together by hand. Nodes may be shared and lie in any
  order, so numbers say nothing about depth. Where no reference below a node points nowhere and no chain of
  references returns, the tree of the node is made of the trees of its parts.
Main exports: Arena.Grounded, Grounded.of_rank, Grounded.tree_eq, Grounded.exists_of_occursIn
-/
import BuildScript.Arena.Unfold
import BuildScript.Proofs.Arena.PostOrder
import BuildScript.Proofs.Tree.Part
import Mathlib.Data.Finset.Card
import Mathlib.Data.Finset.Range

namespace BuildScript.Arena

variable {a : Arena} {root id part : NodeId}

/-!
### Ways
-/

/-- Ways may be put together. -/
theorem Reaches.trans {x y z : NodeId} (h : a.Reaches x y) (h' : a.Reaches y z) : a.Reaches x z := by
  induction h with
  | refl => exact h'
  | step part_of onward ih => exact .step part_of (ih h')

theorem IsPart.reaches (part_of : a.IsPart id part) : a.Reaches id part :=
  .step part_of (.refl part)

/-- What a node has in its list of parts is a part of it. -/
theorem isPart_of_mem {node : Node} {ids : List NodeId} (here : a.node? id = some node)
    (listed : a.parts? node = some ids) (member : part ∈ ids) : a.IsPart id part :=
  ⟨ids, Option.bind_eq_some_iff.mpr ⟨node, here, listed⟩, member⟩

/-- Everything that can be come to from `root` is there, and no way from it returns. -/
structure Grounded (a : Arena) (root : NodeId) : Prop where
  present : ∀ id, a.Reaches root id → ∃ parts, a.children? id = some parts
  acyclic : ∀ id part, a.Reaches root id → a.IsPart id part → ¬ a.Reaches part id

namespace Grounded

/-- What can be come to from a grounded node is grounded. -/
theorem below (h : a.Grounded root) (reaches : a.Reaches root id) : a.Grounded id where
  present x onward := h.present x (reaches.trans onward)
  acyclic x y onward := h.acyclic x y (reaches.trans onward)

/-- Below a grounded node no list is missing. -/
theorem exists_parts {node : Node} (h : a.Grounded root) (reaches : a.Reaches root id)
    (here : a.node? id = some node) : ∃ ids, a.parts? node = some ids := by
  obtain ⟨ids, found⟩ := h.present id reaches
  exact ⟨ids, by rwa [children?, here] at found⟩

/-- Where references only go down in rank and none of the arena points nowhere, every node is grounded. -/
theorem of_rank (rank : NodeId → Nat) (inside : root.index < a.nodes.size)
    (closed : ∀ i < a.nodes.size, ∃ parts, a.children? ⟨i⟩ = some parts ∧
      ∀ part ∈ parts, part.index < a.nodes.size ∧ rank part < rank ⟨i⟩) : a.Grounded root := by
  have down {id part : NodeId} (here : id.index < a.nodes.size) (part_of : a.IsPart id part) :
      part.index < a.nodes.size ∧ rank part < rank id := by
    obtain ⟨parts, found, member⟩ := part_of
    obtain ⟨parts', found', each⟩ := closed id.index here
    obtain rfl := Option.some.inj (found.symm.trans found')
    exact each part member
  have descend {id x : NodeId} (reaches : a.Reaches id x) (here : id.index < a.nodes.size) :
      x.index < a.nodes.size ∧ rank x ≤ rank id := by
    induction reaches with
    | refl => exact ⟨here, Nat.le_refl _⟩
    | step part_of onward ih =>
        obtain ⟨there, less⟩ := down here part_of
        exact ⟨(ih there).1, Nat.le_trans (ih there).2 (Nat.le_of_lt less)⟩
  refine ⟨fun id reaches => ?_, fun id part reaches part_of returns => ?_⟩
  · obtain ⟨parts, found, -⟩ := closed id.index (descend reaches inside).1
    exact ⟨parts, found⟩
  · obtain ⟨there, less⟩ := down (descend reaches inside).1 part_of
    exact absurd (descend returns there).2 (Nat.not_le.mpr less)

end Grounded

/-!
### One construct
-/

/-- The trees of a list are those of its members. -/
theorem unfoldList_eq {r : NodeRange} {ids : List NodeId} (found : a.list? r = some ids)
    (sub : NodeId → Tree) : a.unfoldList sub r = ids.map sub := by
  rw [unfoldList, found]

/-- The parts of the tree of a node are the trees of its parts. -/
theorem parts_unfoldNode {node : Node} {ids : List NodeId} (found : a.parts? node = some ids)
    (sub : NodeId → Tree) : (a.unfoldNode sub node).parts = ids.map sub := by
  cases node with
  | sequence | array | dictionary =>
      simp [unfoldNode, unfoldList_eq found, Tree.parts, Tree.roles, Function.comp_def]
  | conditional clauses otherwise =>
      obtain ⟨first, listed, ⟨⟩⟩ := Option.bind_eq_some_iff.mp found
      cases otherwise <;>
        simp [unfoldNode, unfoldList_eq listed, Tree.parts, Tree.roles, Function.comp_def]
  | foreach vars iterable body =>
      obtain ⟨first, listed, ⟨⟩⟩ := Option.bind_eq_some_iff.mp found
      simp [unfoldNode, unfoldList_eq listed, Tree.parts, Tree.roles, Function.comp_def]
  | application callee args kwargs =>
      obtain ⟨first, listed, rest⟩ := Option.bind_eq_some_iff.mp found
      obtain ⟨second, listed', ⟨⟩⟩ := Option.bind_eq_some_iff.mp rest
      simp [unfoldNode, unfoldList_eq listed, unfoldList_eq listed', Tree.parts, Tree.roles,
        Function.comp_def]
  | name text | string text =>
      cases found
      simp only [unfoldNode]
      split <;> rfl
  | _ =>
      cases found
      rfl

/-- Only the trees of its parts matter to the tree of a node. -/
theorem unfoldNode_congr {node : Node} {ids : List NodeId} (found : a.parts? node = some ids)
    {sub sub' : NodeId → Tree} (same : ∀ part ∈ ids, sub part = sub' part) :
    a.unfoldNode sub node = a.unfoldNode sub' node := by
  cases node with
  | sequence | array | dictionary =>
      rw [unfoldNode, unfoldNode, unfoldList_eq found, unfoldList_eq found, List.map_congr_left same]
  | conditional clauses otherwise =>
      obtain ⟨first, listed, ⟨⟩⟩ := Option.bind_eq_some_iff.mp found
      obtain ⟨same, last⟩ := List.forall_mem_append.mp same
      cases otherwise <;>
        simp_all [unfoldNode, unfoldList_eq listed]
  | foreach vars iterable body =>
      obtain ⟨first, listed, ⟨⟩⟩ := Option.bind_eq_some_iff.mp found
      obtain ⟨same, last⟩ := List.forall_mem_append.mp same
      simp_all [unfoldNode, unfoldList_eq listed]
  | application callee args kwargs =>
      obtain ⟨first, listed, rest⟩ := Option.bind_eq_some_iff.mp found
      obtain ⟨second, listed', ⟨⟩⟩ := Option.bind_eq_some_iff.mp rest
      simp_all [unfoldNode, unfoldList_eq listed, unfoldList_eq listed', or_imp, forall_and]
  | name text | string text => rfl
  | _ =>
      cases found
      simp_all [unfoldNode]

/-!
### Depth

Every step down leaves the node that it starts from out of reach, so what can be come to is a bound on how
deep the references go.
-/

open Classical in
/-- The numbers of the nodes that can be come to. -/
noncomputable def withinReach (a : Arena) (id : NodeId) : Finset Nat :=
  {i ∈ Finset.range a.nodes.size | a.Reaches id ⟨i⟩}

/-- A node within reach is one of the arena that can be come to. -/
theorem mem_withinReach {i : Nat} :
    i ∈ a.withinReach id ↔ i < a.nodes.size ∧ a.Reaches id ⟨i⟩ := by
  simp [withinReach]

theorem card_withinReach_le (a : Arena) (id : NodeId) : (a.withinReach id).card ≤ a.nodes.size := by
  calc (a.withinReach id).card
      ≤ (Finset.range a.nodes.size).card := Finset.card_le_card fun _ member =>
          Finset.mem_range.mpr (mem_withinReach.mp member).1
    _ = a.nodes.size := Finset.card_range _

namespace Grounded

/-- A grounded node is there, with all of its parts. -/
theorem exists_node (h : a.Grounded id) :
    ∃ node ids, a.node? id = some node ∧ a.parts? node = some ids := by
  obtain ⟨ids, found⟩ := h.present id (.refl id)
  obtain ⟨node, here, listed⟩ := Option.bind_eq_some_iff.mp found
  exact ⟨node, ids, here, listed⟩

theorem mem_withinReach_self (h : a.Grounded id) : id.index ∈ a.withinReach id := by
  obtain ⟨node, -, here, -⟩ := h.exists_node
  exact mem_withinReach.mpr ⟨(Array.getElem?_eq_some_iff.mp here).1, .refl id⟩

/-- Each step down leaves less within reach, since no way returns. -/
theorem card_withinReach_lt (h : a.Grounded id) (part_of : a.IsPart id part) :
    (a.withinReach part).card < (a.withinReach id).card := by
  apply Finset.card_lt_card
  rw [Finset.ssubset_iff_of_subset]
  · exact ⟨id.index, h.mem_withinReach_self,
      fun member => h.acyclic id part (.refl id) part_of (mem_withinReach.mp member).2⟩
  · intro i member
    obtain ⟨inside, onward⟩ := mem_withinReach.mp member
    exact mem_withinReach.mpr ⟨inside, .step part_of onward⟩

/-- Any two depths that reach the end of every chain of references give the same tree. -/
theorem unfold_eq {depth other : Nat} (h : a.Grounded id) (deep : (a.withinReach id).card ≤ depth)
    (deep' : (a.withinReach id).card ≤ other) : a.unfold depth id = a.unfold other id := by
  have positive : 0 < (a.withinReach id).card := Finset.card_pos.mpr ⟨_, h.mem_withinReach_self⟩
  induction depth generalizing id other with
  | zero => exact absurd deep (Nat.not_le.mpr positive)
  | succ depth ih =>
      obtain ⟨other, rfl⟩ := Nat.exists_eq_add_one.mpr (Nat.lt_of_lt_of_le positive deep')
      obtain ⟨node, ids, here, listed⟩ := h.exists_node
      simp only [unfold, here]
      apply unfoldNode_congr listed
      intro part member
      have part_of := isPart_of_mem here listed member
      have less := h.card_withinReach_lt part_of
      have below := h.below part_of.reaches
      exact ih below (by omega) (by omega) (Finset.card_pos.mpr ⟨_, below.mem_withinReach_self⟩)

/-- The tree of a node is made of the trees of its parts. -/
theorem tree_eq {node : Node} (h : a.Grounded id) (here : a.node? id = some node) :
    a.tree id = a.unfoldNode a.tree node := by
  have bound := card_withinReach_le a id
  calc a.tree id
      = a.unfold (a.nodes.size + 1) id := h.unfold_eq bound (Nat.le_succ_of_le bound)
    _ = a.unfoldNode a.tree node := by
        simp only [unfold, here]
        rfl

/-- Whatever stands in the tree of a node is the tree of a node that can be come to. -/
theorem exists_of_occursIn {x : Tree} (h : a.Grounded id) (occurs : x.OccursIn (a.tree id)) :
    ∃ y, a.Reaches id y ∧ x = a.tree y := by
  generalize same : a.tree id = t at occurs
  induction occurs generalizing id with
  | self => exact ⟨id, .refl id, same.symm⟩
  | @inside t part member occurs ih =>
      obtain ⟨node, ids, here, listed⟩ := h.exists_node
      rw [← same, h.tree_eq here, parts_unfoldNode listed] at member
      obtain ⟨next, next_of, rfl⟩ := List.mem_map.mp member
      have part_of := isPart_of_mem here listed next_of
      obtain ⟨y, onward, found⟩ := ih (h.below part_of.reaches) rfl
      exact ⟨y, .step part_of onward, found⟩

end Grounded

end BuildScript.Arena
