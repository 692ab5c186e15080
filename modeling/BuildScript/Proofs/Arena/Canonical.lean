/-
Module: BuildScript.Proofs.Arena.Canonical
Layer: proofs about arenas
Purpose: The arena of a program that has been read. Its nodes are numbered in the order in which the tree is
  built up, every node but the root belongs to exactly one other, and the stores of lists and texts are
  handed out to the nodes in the order of their numbers, without a gap. Every production that the reading
  takes leaves the arena so, and so it is found in the end. The arena is determined by the tree.
Main exports: Arena.Canonical, Laid.canonical, tree_toAst, laid_of_parse, parse_canonical
-/
import BuildScript.Proofs.Arena.Layout
import BuildScript.Proofs.Arena.Reach
import BuildScript.Proofs.Flat.Statement
import Mathlib

namespace BuildScript

/-- The arena holds the tree below `root` and nothing else, laid out in the one order that parts before the
    node they belong to, and the parts from left to right, leave open. -/
structure Arena.Canonical (a : Arena) (root : NodeId) : Prop where
  /-- Listed from the root, parts first, the nodes have the numbers from zero on. -/
  listing : ∀ ids, a.PostOrder root ids ↔ ids = nodesFrom 0 a.nodes.size
  root_last : root.index + 1 = a.nodes.size
  one_parent : ∀ id : NodeId, id.index < a.nodes.size → id ≠ root → ∃! parent, a.IsPart parent id
  parts_before : ∀ id part, a.IsPart id part → part.index < id.index
  all_reached : a.nodeCount? root = some a.nodes.size
  /-- The lists of the nodes, in the order of the nodes, fill the list storage. -/
  lists : NodeRange.Tile 0 (a.nodes.toList.flatMap Node.ranges) a.lists.size
  /-- The texts of the nodes, in the order of the nodes, have the numbers from zero on. -/
  texts : a.nodes.toList.flatMap Node.texts = textsFrom 0 a.texts.size

theorem mem_nodesFrom_zero {id : NodeId} {count : Nat} : id ∈ nodesFrom 0 count ↔ id.index < count := by
  rcases id with ⟨i⟩
  simp [nodesFrom]

theorem nodesFrom_ordered (start count : Nat) :
    (nodesFrom start count).Pairwise (·.index < ·.index) := by
  rw [nodesFrom, List.pairwise_map]
  exact List.pairwise_lt_range'

/-- Numbers in a row are all different. -/
theorem nodesFrom_nodup (start count : Nat) : (nodesFrom start count).Nodup :=
  (nodesFrom_ordered start count).imp fun less same => by simp [same] at less

theorem Arena.index_lt_of_isPart {a : Arena} {parent x : NodeId} (h : a.IsPart parent x) :
    parent.index < a.nodes.size := by
  obtain ⟨parts, found, -⟩ := h
  obtain ⟨node, hnode, -⟩ := Option.bind_eq_some_iff.mp found
  exact (Array.getElem?_eq_some_iff.mp hnode).1

/-- What a listing by number from the root makes of an arena. -/
theorem Arena.Tidy.canonical {a : Arena} {root : NodeId} (tidy : a.Tidy)
    (last : root.index + 1 = a.nodes.size) (listed : a.PostOrder root (nodesFrom 0 a.nodes.size)) :
    a.Canonical root where
  listing ids := ⟨fun h => h.unique listed, fun h => h ▸ listed⟩
  root_last := last
  one_parent id inside different := by
    obtain ⟨parent, ⟨-, part_of⟩, only⟩ := listed.existsUnique_parent (nodesFrom_nodup 0 _)
      (mem_nodesFrom_zero.mpr inside) different
    exact ⟨parent, part_of, fun other other_of =>
      only other ⟨mem_nodesFrom_zero.mpr (index_lt_of_isPart other_of), other_of⟩⟩
  parts_before id part part_of :=
    listed.parts_before (nodesFrom_ordered 0 _) id (mem_nodesFrom_zero.mpr (index_lt_of_isPart part_of))
      part part_of
  all_reached := by
    refine nodeCount?_eq_size (fun i hi => listed.reaches _ (mem_nodesFrom_zero.mpr hi)) fun x reaches => ?_
    have hx := listed.reaches_iff.mp reaches
    obtain ⟨parts, found, -⟩ := listed.closed x hx
    exact ⟨parts, found⟩
  lists := tidy.lists
  texts := tidy.texts

/-- A tree that has been laid out in an empty arena is all that the arena holds. -/
theorem Arena.Laid.canonical {a : Arena} {t : Tree} {root : NodeId} {maxNodes : Option Nat}
    (laid : Laid (Arena.empty maxNodes) [t] [root] a) : a.Canonical root := by
  have listed : a.PostOrder root (nodesFrom 0 a.nodes.size) := by
    have inside := (laid.order a (.refl a)).singleton
    have size : a.nodes.size = Tree.sizes [t] := laid.size.trans (Nat.zero_add _)
    rw [size]
    exact inside
  exact (laid.tidy ⟨rfl, rfl⟩).canonical laid.root_last listed

/-!
### Programs
-/

theorem laid_toAst (t : Tree) (maxNodes : Option Nat) :
    Arena.Laid (Arena.empty maxNodes) [t] [(t.toAst maxNodes).root] (t.toAst maxNodes).arena :=
  laid_layOut t (Arena.empty maxNodes)

/-- A tree is laid out in as many nodes as it has constructs. -/
theorem size_toAst (t : Tree) (maxNodes : Option Nat) :
    (t.toAst maxNodes).arena.nodes.size = t.size := by
  rw [(laid_toAst t maxNodes).size]
  simp [Arena.empty, Tree.sizes]

/-- Following the references of a program that has been laid out gives its tree back. -/
theorem tree_toAst {t : Tree} (whole : t.isWhole = true) (maxNodes : Option Nat) :
    (t.toAst maxNodes).tree = t := by
  have laid := laid_toAst t maxNodes
  have trees := laid.trees (by simp [Tree.areWhole, whole]) _ (.refl _) t.size (by simp [Tree.sizes])
  rw [Ast.tree, Arena.tree, size_toAst]
  simpa using trees

/-- What reading a program has put into its arena. -/
theorem laid_of_parse {source : String} {maxNodes : Option Nat} {ast : Ast}
    (read : parse source maxNodes = .ok ast) :
    ∃ t, Arena.Laid (Arena.empty maxNodes) [t] [ast.root] ast.arena := by
  unfold parse at read
  cases run : parseTerminals maxNodes (terminals source) with
  | error e s => simp [run] at read
  | ok root s =>
      obtain rfl : { arena := s.arena, root } = ast := by simpa [run] using read
      exact (Flat.fills_program _).laid run

/-- Every program that is read, whatever the limit, lies in its arena in canonical form. -/
theorem parse_canonical (source : String) (maxNodes : Option Nat) (ast : Ast)
    (read : parse source maxNodes = .ok ast) : ast.arena.Canonical ast.root := by
  obtain ⟨t, laid⟩ := laid_of_parse read
  exact laid.canonical

/-- A call with a positional and a keyword argument, under a limit that it just keeps. -/
theorem parse_canonical_call : ∃ ast, parse "f(* x, k: ['s'])" (some 10) = .ok ast ∧
    ast.arena.Canonical ast.root := by
  have read : readTree (some 10) "f(* x, k: ['s'])" = .ok
      (.sequence [.application (.name "f") [.arithmetic .mul .empty (.name "x")]
        [.keywordArg (.name "k") (.array [.string "s"])]]) := by
    cbv
  have parsed := parse_eq_ok.mpr ⟨_, read, rfl⟩
  exact ⟨_, parsed, parse_canonical _ _ _ parsed⟩

end BuildScript
