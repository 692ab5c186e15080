/-
Module: BuildScript.Proofs.Arena.PostOrder
Layer: proofs about arenas
Purpose: Listing what hangs below a node, parts before the node they belong to. A listing without
  repetitions says all there is to say about ownership: its members are exactly the nodes that can be
  come to, and each of them but the first has one parent.
Main exports: Arena.Reaches, Arena.PostOrder, PostOrder.unique, PostOrder.reaches_iff,
  PostOrder.existsUnique_parent, PostOrder.parts_before
-/
import BuildScript.Arena.Basic
import Mathlib.Data.List.Basic
import Mathlib.Data.List.Nodup
import Mathlib.Logic.ExistsUnique

namespace BuildScript.Arena

/-- `x` is one of the parts of `parent`. -/
def IsPart (a : Arena) (parent x : NodeId) : Prop :=
  ∃ parts, a.children? parent = some parts ∧ x ∈ parts

/-- A node can be come to from another by going from a node to one of its parts any number of times. -/
inductive Reaches (a : Arena) : NodeId → NodeId → Prop where
  | refl (id : NodeId) : Reaches a id id
  | step {id part x : NodeId} (part_of : a.IsPart id part) (onward : Reaches a part x) : Reaches a id x

mutual

/-- The nodes below `id` and `id` itself, each after its parts, the parts from left to right. -/
inductive PostOrder (a : Arena) : (id : NodeId) → (listing : List NodeId) → Prop where
  | node {id : NodeId} {parts listing : List NodeId} (found : a.children? id = some parts)
      (below : PostOrders a parts listing) : PostOrder a id (listing ++ [id])

/-- The listings of several nodes, one after the other. -/
inductive PostOrders (a : Arena) : (ids listing : List NodeId) → Prop where
  | nil : PostOrders a [] []
  | cons {id : NodeId} {ids first others : List NodeId} (head : PostOrder a id first)
      (tail : PostOrders a ids others) : PostOrders a (id :: ids) (first ++ others)

end

variable {a : Arena}

/-!
### Listings are determined by the node
-/

mutual

/-- A node has one listing only. -/
theorem PostOrder.unique : ∀ {id : NodeId} {listing other : List NodeId},
    a.PostOrder id listing → a.PostOrder id other → listing = other
  | _, _, _, .node found below, .node found' below' => by
      have same := Option.some.inj (found.symm.trans found')
      subst same
      rw [PostOrders.unique below below']

/-- Nodes in a row have one listing only. -/
theorem PostOrders.unique : ∀ {ids listing other : List NodeId},
    a.PostOrders ids listing → a.PostOrders ids other → listing = other
  | _, _, _, .nil, .nil => rfl
  | _, _, _, .cons head tail, .cons head' tail' => by
      rw [PostOrder.unique head head', PostOrders.unique tail tail']

end

theorem PostOrders.singleton {id : NodeId} {listing : List NodeId} (h : a.PostOrders [id] listing) :
    a.PostOrder id listing := by
  cases h with
  | cons head tail =>
      cases tail with
      | nil => simpa using head

/-- A node comes last in its own listing. -/
theorem PostOrder.getLast? {id : NodeId} {listing : List NodeId} (h : a.PostOrder id listing) :
    listing.getLast? = some id := by
  cases h with
  | node found below => simp

/-!
### Members of a listing
-/

theorem PostOrder.self_mem {id : NodeId} {listing : List NodeId} (h : a.PostOrder id listing) :
    id ∈ listing := by
  cases h with
  | node found below => simp

/-- Every node of the row is in the listing. -/
theorem PostOrders.subset : ∀ {ids listing : List NodeId}, a.PostOrders ids listing → ids ⊆ listing
  | _, _, .nil => List.Subset.refl []
  | _, _, .cons head tail => by
      intro x hx
      rcases List.mem_cons.mp hx with rfl | hx
      · exact List.mem_append_left _ head.self_mem
      · exact List.mem_append_right _ (tail.subset hx)

mutual

/-- Every member of a listing is a node, and its parts are members too. -/
theorem PostOrder.closed : ∀ {id : NodeId} {listing : List NodeId}, a.PostOrder id listing →
    ∀ x ∈ listing, ∃ parts, a.children? x = some parts ∧ parts ⊆ listing
  | _, _, .node found below, x, hx => by
      rcases List.mem_append.mp hx with hx | hx
      · obtain ⟨parts, hparts, inside⟩ := PostOrders.closed below x hx
        exact ⟨parts, hparts, fun _ h => List.mem_append_left _ (inside h)⟩
      · obtain rfl := List.mem_singleton.mp hx
        exact ⟨_, found, fun _ h => List.mem_append_left _ (below.subset h)⟩

/-- A listing has the parts of all its members. -/
theorem PostOrders.closed : ∀ {ids listing : List NodeId}, a.PostOrders ids listing →
    ∀ x ∈ listing, ∃ parts, a.children? x = some parts ∧ parts ⊆ listing
  | _, _, .nil, _, hx => by cases hx
  | _, _, .cons head tail, x, hx => by
      rcases List.mem_append.mp hx with hx | hx
      · obtain ⟨parts, hparts, inside⟩ := PostOrder.closed head x hx
        exact ⟨parts, hparts, fun _ h => List.mem_append_left _ (inside h)⟩
      · obtain ⟨parts, hparts, inside⟩ := PostOrders.closed tail x hx
        exact ⟨parts, hparts, fun _ h => List.mem_append_right _ (inside h)⟩

end

mutual

/-- There is a way from the node to each member of its listing. -/
theorem PostOrder.reaches : ∀ {id : NodeId} {listing : List NodeId}, a.PostOrder id listing →
    ∀ x ∈ listing, a.Reaches id x
  | id, _, .node found below, x, hx => by
      rcases List.mem_append.mp hx with hx | hx
      · obtain ⟨part, hpart, onward⟩ := PostOrders.reaches below x hx
        exact .step ⟨_, found, hpart⟩ onward
      · obtain rfl := List.mem_singleton.mp hx
        exact .refl x

/-- Each member of the listing can be come to from one of the row. -/
theorem PostOrders.reaches : ∀ {ids listing : List NodeId}, a.PostOrders ids listing →
    ∀ x ∈ listing, ∃ id ∈ ids, a.Reaches id x
  | _, _, .nil, _, hx => by cases hx
  | _, _, .cons head tail, x, hx => by
      rcases List.mem_append.mp hx with hx | hx
      · exact ⟨_, List.mem_cons_self, PostOrder.reaches head x hx⟩
      · obtain ⟨id, hid, onward⟩ := PostOrders.reaches tail x hx
        exact ⟨id, List.mem_cons_of_mem _ hid, onward⟩

end

/-- A listing holds exactly what can be come to. -/
theorem PostOrder.reaches_iff {id x : NodeId} {listing : List NodeId} (h : a.PostOrder id listing) :
    a.Reaches id x ↔ x ∈ listing := by
  have inside : ∀ y, a.Reaches y x → y ∈ listing → x ∈ listing := by
    intro y reaches
    induction reaches with
    | refl => exact fun hy => hy
    | step part_of onward ih =>
        intro hy
        obtain ⟨parts, hparts, hpart⟩ := part_of
        obtain ⟨parts', hparts', members⟩ := h.closed _ hy
        obtain rfl := Option.some.inj (hparts.symm.trans hparts')
        exact ih (members hpart)
  exact ⟨fun reaches => inside id reaches h.self_mem, h.reaches x⟩

/-!
### Parents

In a listing without repetitions the nodes that are listed first, one below the other, share nothing with
those listed later. So the parent of a node is listed together with it.
-/

/-- What is a part of a member is a member. -/
theorem part_mem_of_closed {listing : List NodeId}
    (closed : ∀ x ∈ listing, ∃ parts, a.children? x = some parts ∧ parts ⊆ listing)
    {parent x : NodeId} (hparent : parent ∈ listing) (part_of : a.IsPart parent x) : x ∈ listing := by
  obtain ⟨parts, hparts, hx⟩ := part_of
  obtain ⟨parts', hparts', members⟩ := closed parent hparent
  obtain rfl := Option.some.inj (hparts.symm.trans hparts')
  exact members hx

/-- A parent stays the only one where the listing goes on with nodes that are no parents. -/
theorem existsUnique_parent_append {first others : List NodeId} {x : NodeId}
    (one : ∃! parent, parent ∈ first ∧ a.IsPart parent x)
    (none_of : ∀ parent ∈ others, ¬ a.IsPart parent x) :
    ∃! parent, parent ∈ first ++ others ∧ a.IsPart parent x := by
  obtain ⟨parent, ⟨hparent, part_of⟩, only⟩ := one
  refine ⟨parent, ⟨List.mem_append_left _ hparent, part_of⟩, fun other ⟨hother, other_of⟩ => ?_⟩
  rcases List.mem_append.mp hother with hother | hother
  · exact only other ⟨hother, other_of⟩
  · exact absurd other_of (none_of other hother)

mutual

/-- Without repetitions, every member but the node itself is a part of exactly one member. -/
theorem PostOrder.parent_of_mem : ∀ {id : NodeId} {listing : List NodeId}, a.PostOrder id listing →
    listing.Nodup → ∀ x ∈ listing,
      (x = id ∧ ∀ parent ∈ listing, ¬ a.IsPart parent x) ∨
      (x ≠ id ∧ ∃! parent, parent ∈ listing ∧ a.IsPart parent x)
  | id, _, @PostOrder.node _ _ parts below found hbelow, distinct, x, hx => by
      obtain ⟨distinct, -, apart⟩ := List.nodup_append.mp distinct
      have parts_below : parts ⊆ below := hbelow.subset
      rcases List.mem_append.mp hx with hx | hx
      · have different : x ≠ id := apart x hx id (List.mem_singleton_self id)
        refine .inr ⟨different, ?_⟩
        have part_iff : a.IsPart id x ↔ x ∈ parts :=
          ⟨fun ⟨_, h, hx⟩ => Option.some.inj (found.symm.trans h) ▸ hx, fun hx => ⟨_, found, hx⟩⟩
        rcases PostOrders.parent_of_mem hbelow distinct x hx with ⟨first, none_below⟩ | ⟨not_first, one⟩
        · refine ⟨id, ⟨by simp, part_iff.mpr first⟩, fun parent ⟨hparent, part_of⟩ => ?_⟩
          rcases List.mem_append.mp hparent with hparent | hparent
          · exact absurd part_of (none_below parent hparent)
          · exact List.mem_singleton.mp hparent
        · refine existsUnique_parent_append one fun other hother other_of => ?_
          obtain rfl := List.mem_singleton.mp hother
          exact not_first (part_iff.mp other_of)
      · obtain rfl := List.mem_singleton.mp hx
        refine .inl ⟨rfl, fun parent hparent part_of => ?_⟩
        -- A node that has itself or something listed before it for a parent is listed before itself.
        have before : x ∈ below := by
          rcases List.mem_append.mp hparent with hparent | hparent
          · exact part_mem_of_closed hbelow.closed hparent part_of
          · obtain rfl := List.mem_singleton.mp hparent
            obtain ⟨parts', found', hx⟩ := part_of
            exact parts_below (Option.some.inj (found.symm.trans found') ▸ hx)
        exact apart x before x (List.mem_singleton_self x) rfl

/-- Without repetitions, every member outside the row is a part of exactly one member. -/
theorem PostOrders.parent_of_mem : ∀ {ids listing : List NodeId}, a.PostOrders ids listing →
    listing.Nodup → ∀ x ∈ listing,
      (x ∈ ids ∧ ∀ parent ∈ listing, ¬ a.IsPart parent x) ∨
      (x ∉ ids ∧ ∃! parent, parent ∈ listing ∧ a.IsPart parent x)
  | _, _, .nil, _, _, hx => by cases hx
  | _, _, @PostOrders.cons _ id ids first others head tail, distinct, x, hx => by
      obtain ⟨distinct_first, distinct_others, apart⟩ := List.nodup_append.mp distinct
      rcases List.mem_append.mp hx with hx | hx
      · have not_later : ∀ parent ∈ others, ¬ a.IsPart parent x := fun parent hparent part_of =>
          apart x hx x (part_mem_of_closed tail.closed hparent part_of) rfl
        have not_in_ids : x ∉ ids := fun h => apart x hx x (tail.subset h) rfl
        rcases PostOrder.parent_of_mem head distinct_first x hx with ⟨rfl, none_of⟩ | ⟨different, one⟩
        · refine .inl ⟨List.mem_cons_self, fun parent hparent => ?_⟩
          rcases List.mem_append.mp hparent with hparent | hparent
          · exact none_of parent hparent
          · exact not_later parent hparent
        · exact .inr ⟨by simp [different, not_in_ids], existsUnique_parent_append one not_later⟩
      · have not_before : ∀ parent ∈ first, ¬ a.IsPart parent x := fun parent hparent part_of =>
          apart x (part_mem_of_closed head.closed hparent part_of) x hx rfl
        have different : x ≠ id := fun h => apart x (h ▸ head.self_mem) x hx rfl
        rcases PostOrders.parent_of_mem tail distinct_others x hx with ⟨hids, none_of⟩ | ⟨hids, one⟩
        · refine .inl ⟨List.mem_cons_of_mem _ hids, fun parent hparent => ?_⟩
          rcases List.mem_append.mp hparent with hparent | hparent
          · exact not_before parent hparent
          · exact none_of parent hparent
        · refine .inr ⟨by simp [different, hids], ?_⟩
          simpa [or_comm] using existsUnique_parent_append one not_before

end

/-- In a listing without repetitions every node but the first has exactly one parent. -/
theorem PostOrder.existsUnique_parent {id x : NodeId} {listing : List NodeId}
    (h : a.PostOrder id listing) (distinct : listing.Nodup) (hx : x ∈ listing) (different : x ≠ id) :
    ∃! parent, parent ∈ listing ∧ a.IsPart parent x := by
  rcases h.parent_of_mem distinct x hx with ⟨same, -⟩ | ⟨-, one⟩
  · exact absurd same different
  · exact one

mutual

/-- Where a listing is ordered by number, parts have smaller numbers than the node they belong to. -/
theorem PostOrder.parts_before : ∀ {id : NodeId} {listing : List NodeId}, a.PostOrder id listing →
    listing.Pairwise (·.index < ·.index) → ∀ parent ∈ listing, ∀ x, a.IsPart parent x →
      x.index < parent.index
  | id, _, .node found below, ordered, parent, hparent, x, part_of => by
      obtain ⟨ordered, -, before⟩ := List.pairwise_append.mp ordered
      rcases List.mem_append.mp hparent with hparent | hparent
      · exact PostOrders.parts_before below ordered parent hparent x part_of
      · obtain rfl := List.mem_singleton.mp hparent
        obtain ⟨parts, hparts, hx⟩ := part_of
        obtain rfl := Option.some.inj (found.symm.trans hparts)
        exact before x (below.subset hx) parent (List.mem_singleton_self parent)

/-- In order of number, parts come before what they are parts of. -/
theorem PostOrders.parts_before : ∀ {ids listing : List NodeId}, a.PostOrders ids listing →
    listing.Pairwise (·.index < ·.index) → ∀ parent ∈ listing, ∀ x, a.IsPart parent x →
      x.index < parent.index
  | _, _, .nil, _, _, hparent, _, _ => by cases hparent
  | _, _, .cons head tail, ordered, parent, hparent, x, part_of => by
      obtain ⟨ordered_first, ordered_others, -⟩ := List.pairwise_append.mp ordered
      rcases List.mem_append.mp hparent with hparent | hparent
      · exact PostOrder.parts_before head ordered_first parent hparent x part_of
      · exact PostOrders.parts_before tail ordered_others parent hparent x part_of

end

end BuildScript.Arena
