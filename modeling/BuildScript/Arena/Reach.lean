/-
Module: BuildScript.Arena.Reach
Layer: arenas
Purpose: How many nodes a program is made of: those that can be come to from its root. Nodes may be shared
  and may refer to each other in circles; each counts once.
Main exports: Arena.reach?, Arena.nodeCount?
-/
import BuildScript.Arena.Basic

namespace BuildScript.Arena

/-- Visits the nodes of `work` and all that can be come to from them. `seen` marks the nodes that have
    been visited, by number. The visit fails when it meets a reference to nothing. Every step marks a
    node or shortens the work. -/
def reach? (a : Arena) (work : List NodeId) (seen : Array Bool) : Option (Array Bool) :=
  match work with
  | [] => some seen
  | id :: rest =>
      match _h : seen[id.index]? with
      | none => none
      | some true => a.reach? rest seen
      | some false =>
          match a.children? id with
          | none => none
          | some children => a.reach? (children ++ rest) (seen.setIfInBounds id.index true)
termination_by (seen.count false, work.length)
decreasing_by
  · simp_wf
    exact Prod.Lex.right _ (Nat.lt_succ_self _)
  · apply Prod.Lex.left
    obtain ⟨hi, hfalse⟩ := Array.getElem?_eq_some_iff.mp _h
    have hpos : 0 < seen.count false := Array.count_pos_iff.mpr (hfalse ▸ Array.getElem_mem hi)
    have hcount : (seen.set id.index true hi).count false = seen.count false - 1 := by
      rw [Array.count_set, hfalse]
      rfl
    rw [Array.setIfInBounds_def, dif_pos hi, hcount]
    exact Nat.sub_lt hpos Nat.one_pos

/-- How many nodes can be come to from `root`, itself included; nothing if some reference met on the way
    points nowhere. -/
def nodeCount? (a : Arena) (root : NodeId) : Option Nat :=
  (a.reach? [root] (Array.replicate a.nodes.size false)).map fun seen => seen.count true

end BuildScript.Arena
