/-
Module: BuildScript.Proofs.Arena.Reach
Layer: proofs about arenas
Purpose: What the visit of an arena marks. When it ends well it has marked, besides what was marked
  before, exactly the nodes that can be come to from its work; and it ends well when none of these
  refers to nothing. A count of nodes is the number of marks that a visit from the root leaves.
Main exports: Arena.Visited, reach?_visited, exists_reach?, Visited.marked_iff, nodeCount?_of_whole,
  whole_of_nodeCount?, nodeCount?_eq_size
-/
import BuildScript.Arena.Reach
import BuildScript.Proofs.Arena.PostOrder
import Mathlib.Data.Finset.Card
import Mathlib.Data.Finset.Range

namespace BuildScript.Arena

variable {a : Arena}

/-- Whether the node is marked. -/
def Marked (seen : Array Bool) (id : NodeId) : Prop :=
  seen[id.index]? = some true

/-- The marks of `final` are those of a visit of `work` that began with the marks of `seen`. -/
structure Visited (a : Arena) (work : List NodeId) (seen final : Array Bool) : Prop where
  size : final.size = seen.size
  keeps : ∀ id, Marked seen id → Marked final id
  visits : ∀ id ∈ work, Marked final id
  follows : ∀ id, Marked final id → ¬ Marked seen id → ∃ parts, a.children? id = some parts ∧
    ∀ part ∈ parts, Marked final part
  stays : ∀ id, Marked final id → ¬ Marked seen id → ∃ start ∈ work, a.Reaches start id

/-- Setting a mark adds that one node to the marked ones. -/
theorem marked_set_iff {seen : Array Bool} {id x : NodeId} (h : seen[id.index]? = some false) :
    Marked (seen.setIfInBounds id.index true) x ↔ x = id ∨ Marked seen x := by
  obtain ⟨inside, -⟩ := Array.getElem?_eq_some_iff.mp h
  rcases id with ⟨i⟩
  rcases x with ⟨j⟩
  by_cases same : j = i
  · subst same
    simp [Marked, inside]
  · have different : i ≠ j := fun h => same h.symm
    simp [Marked, same, different]

/-- A visit that ends well has marked all of its work and what that leads to. -/
theorem reach?_visited {work : List NodeId} {seen final : Array Bool}
    (run : a.reach? work seen = some final) : Visited a work seen final := by
  fun_induction reach? a work seen with
  | case1 seen =>
      obtain rfl := Option.some.inj run
      exact ⟨rfl, fun _ h => h, fun _ h => (List.not_mem_nil h).elim, fun _ h h' => absurd h h',
        fun _ h h' => absurd h h'⟩
  | case2 => cases run
  | case3 seen id rest marked ih =>
      have later := ih run
      refine ⟨later.size, later.keeps, fun x hx => ?_, later.follows, fun x hx hnew => ?_⟩
      · rcases List.mem_cons.mp hx with rfl | hx
        · exact later.keeps x marked
        · exact later.visits x hx
      · obtain ⟨start, hstart, reaches⟩ := later.stays x hx hnew
        exact ⟨start, List.mem_cons_of_mem _ hstart, reaches⟩
  | case4 => cases run
  | case5 seen id rest unmarked children found ih =>
      have later := ih run
      have mark_iff := fun x => marked_set_iff (x := x) unmarked
      have id_marked : Marked final id := later.keeps id ((mark_iff id).mpr (.inl rfl))
      have parts_marked : ∀ part ∈ children, Marked final part :=
        fun part hpart => later.visits part (List.mem_append_left _ hpart)
      refine ⟨by simpa using later.size, fun x hx => later.keeps x ((mark_iff x).mpr (.inr hx)),
        fun x hx => ?_, fun x hx hnew => ?_, fun x hx hnew => ?_⟩
      · rcases List.mem_cons.mp hx with rfl | hx
        · exact id_marked
        · exact later.visits x (List.mem_append_right _ hx)
      · by_cases same : x = id
        · subst same
          exact ⟨children, found, parts_marked⟩
        · exact later.follows x hx fun h => ((mark_iff x).mp h).elim same hnew
      · by_cases same : x = id
        · subst same
          exact ⟨x, List.mem_cons_self, .refl x⟩
        · obtain ⟨start, hstart, reaches⟩ :=
            later.stays x hx fun h => ((mark_iff x).mp h).elim same hnew
          rcases List.mem_append.mp hstart with hstart | hstart
          · exact ⟨id, List.mem_cons_self, .step ⟨children, found, hstart⟩ reaches⟩
          · exact ⟨start, List.mem_cons_of_mem _ hstart, reaches⟩

/-- A visit ends well when everything it can come to has its mark and its parts. -/
theorem exists_reach? {work : List NodeId} {seen : Array Bool}
    (whole : ∀ start ∈ work, ∀ x, a.Reaches start x →
      x.index < seen.size ∧ ∃ parts, a.children? x = some parts) :
    ∃ final, a.reach? work seen = some final := by
  fun_induction reach? a work seen with
  | case1 seen => exact ⟨seen, rfl⟩
  | case2 seen id rest outside =>
      have inside := (whole id List.mem_cons_self id (.refl id)).1
      exact absurd (Array.getElem?_eq_none_iff.mp outside) (Nat.not_le.mpr inside)
  | case3 seen id rest marked ih => exact ih fun start hstart => whole start (List.mem_cons_of_mem _ hstart)
  | case4 seen id rest unmarked dangling =>
      obtain ⟨parts, found⟩ := (whole id List.mem_cons_self id (.refl id)).2
      rw [dangling] at found
      cases found
  | case5 seen id rest unmarked children found ih =>
      apply ih
      intro start hstart x reaches
      rw [Array.size_setIfInBounds]
      rcases List.mem_append.mp hstart with hstart | hstart
      · exact whole id List.mem_cons_self x (.step ⟨children, found, hstart⟩ reaches)
      · exact whole start (List.mem_cons_of_mem _ hstart) x reaches

/-!
### Counting
-/

/-- The marks before a visit. -/
def unmarked (a : Arena) : Array Bool :=
  Array.replicate a.nodes.size false

theorem not_marked_unmarked (a : Arena) (id : NodeId) : ¬ Marked a.unmarked id := by
  simp [Marked, unmarked, Array.getElem?_replicate]

/-- What has parts is a node of the arena. -/
theorem index_lt_of_children? {id : NodeId} {parts : List NodeId} (found : a.children? id = some parts) :
    id.index < a.nodes.size := by
  obtain ⟨node, here, -⟩ := Option.bind_eq_some_iff.mp found
  exact (Array.getElem?_eq_some_iff.mp here).1

/-- Of what can be come to from a marked node, all is marked. -/
theorem Visited.marked_of_reaches {work : List NodeId} {final : Array Bool}
    (h : Visited a work a.unmarked final) {x y : NodeId} (reaches : a.Reaches x y)
    (marked : Marked final x) : Marked final y := by
  induction reaches with
  | refl => exact marked
  | step part_of onward ih =>
      obtain ⟨parts, found, member⟩ := part_of
      obtain ⟨parts', found', each⟩ := h.follows _ marked (a.not_marked_unmarked _)
      obtain rfl := Option.some.inj (found.symm.trans found')
      exact ih (each _ member)

/-- A visit from the root marks what can be come to from there, and nothing else. -/
theorem Visited.marked_iff {root id : NodeId} {final : Array Bool}
    (h : Visited a [root] a.unmarked final) : Marked final id ↔ a.Reaches root id := by
  constructor
  · intro marked
    obtain ⟨start, member, reaches⟩ := h.stays id marked (a.not_marked_unmarked id)
    rwa [List.mem_singleton.mp member] at reaches
  · intro reaches
    exact h.marked_of_reaches reaches (h.visits root (List.mem_singleton_self root))

/-- The numbers of the marked nodes. -/
def markedNodes (seen : Array Bool) : Finset NodeId :=
  ((Finset.range seen.size).filter fun i => seen[i]? = some true).map
    ⟨NodeId.mk, fun _ _ same => congrArg NodeId.index same⟩

theorem mem_markedNodes {seen : Array Bool} {id : NodeId} : id ∈ markedNodes seen ↔ Marked seen id := by
  simp only [markedNodes, Finset.mem_map, Finset.mem_filter, Finset.mem_range, Marked]
  constructor
  · rintro ⟨i, ⟨-, marked⟩, rfl⟩
    exact marked
  · intro marked
    exact ⟨id.index, ⟨(Array.getElem?_eq_some_iff.mp marked).1, marked⟩, rfl⟩

/-- Marks are counted by the places where they are set. -/
theorem count_true_eq_card (marks : List Bool) :
    marks.count true = ((Finset.range marks.length).filter fun i => marks[i]? = some true).card := by
  induction marks using List.reverseRecOn with
  | nil => rfl
  | append_singleton marks mark ih =>
      have before : (Finset.range marks.length).filter (fun i => (marks ++ [mark])[i]? = some true) =
          (Finset.range marks.length).filter fun i => marks[i]? = some true :=
        Finset.filter_congr fun i hi => by rw [List.getElem?_append_left (Finset.mem_range.mp hi)]
      rw [List.count_append, List.length_append, List.length_singleton, Finset.range_add_one,
        Finset.filter_insert, before, ih]
      cases mark <;> simp

/-- There are as many marked nodes as marks that are set. -/
theorem card_markedNodes (seen : Array Bool) : (markedNodes seen).card = seen.count true := by
  rw [markedNodes, Finset.card_map, ← Array.count_toList, count_true_eq_card]
  simp

/-- Where no reference met on the way points nowhere, the count is that of the nodes that can be come to. -/
theorem nodeCount?_of_whole {root : NodeId}
    (whole : ∀ x, a.Reaches root x → ∃ parts, a.children? x = some parts) :
    ∃ found : Finset NodeId, (∀ id, id ∈ found ↔ a.Reaches root id) ∧
      a.nodeCount? root = some found.card := by
  obtain ⟨final, run⟩ : ∃ final, a.reach? [root] a.unmarked = some final := by
    apply exists_reach?
    intro start member x reaches
    obtain rfl := List.mem_singleton.mp member
    obtain ⟨parts, found⟩ := whole x reaches
    exact ⟨by simpa [unmarked] using index_lt_of_children? found, parts, found⟩
  refine ⟨markedNodes final, fun id => mem_markedNodes.trans (reach?_visited run).marked_iff, ?_⟩
  rw [nodeCount?, ← unmarked, run, card_markedNodes]
  rfl

/-- A count is only given where no reference met on the way points nowhere. -/
theorem whole_of_nodeCount? {root : NodeId} {n : Nat} (counted : a.nodeCount? root = some n) {x : NodeId}
    (reaches : a.Reaches root x) : ∃ parts, a.children? x = some parts := by
  obtain ⟨final, run, -⟩ := Option.map_eq_some_iff.mp counted
  have visited := reach?_visited run
  obtain ⟨parts, found, -⟩ :=
    visited.follows x (visited.marked_iff.mpr reaches) (a.not_marked_unmarked x)
  exact ⟨parts, found⟩

/-- Where every node can be come to from `root` and no reference points nowhere, all nodes are counted. -/
theorem nodeCount?_eq_size {root : NodeId} (all : ∀ i < a.nodes.size, a.Reaches root ⟨i⟩)
    (whole : ∀ x, a.Reaches root x → ∃ parts, a.children? x = some parts) :
    a.nodeCount? root = some a.nodes.size := by
  obtain ⟨found, mem_found, counted⟩ := nodeCount?_of_whole whole
  have all_found : found.map ⟨NodeId.index, fun _ _ => congrArg NodeId.mk⟩ = Finset.range a.nodes.size := by
    ext i
    simp only [Finset.mem_map, Finset.mem_range]
    constructor
    · rintro ⟨id, member, rfl⟩
      obtain ⟨parts, here⟩ := whole id ((mem_found id).mp member)
      exact index_lt_of_children? here
    · exact fun inside => ⟨⟨i⟩, (mem_found ⟨i⟩).mpr (all i inside), rfl⟩
  rw [counted, ← Finset.card_map, all_found, Finset.card_range]

end BuildScript.Arena
