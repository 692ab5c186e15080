/-
Module: BuildScript.Proofs.Arena.Written
Layer: proofs about arenas
Purpose: What is written of a program put together by hand is the text of a program. Any construct may stand
  anywhere and any list may be without an entry; the writing refuses whatever the grammar has no text for,
  with one exception: a loop without a variable is written, and its text is no program.
Main exports: parse_of_spelling, parse_spelling_without_variable
-/
import BuildScript.Proofs.Arena.Assembled
import BuildScript.Proofs.Spelling.Vacant

namespace BuildScript

variable {a : Arena} {root : NodeId}

/-- Words for names and variables for loops are seen in the arena. -/
theorem Arena.Grounded.wellNamed (grounded : a.Grounded root)
    (words : ∀ id text word, a.Reaches root id → a.node? id = some (.name text) →
      a.text? text = some word → Text.isWord word = true)
    (loops : ∀ id vars iterable body, a.Reaches root id →
      a.node? id = some (.foreach vars iterable body) → a.list? vars ≠ some []) :
    (a.tree root).Throughout Tree.WellNamed := by
  intro x occurs
  obtain ⟨id, reaches, rfl⟩ := grounded.exists_of_occursIn occurs
  have below := grounded.below reaches
  obtain ⟨node, ids, here, listed⟩ := below.exists_node
  rw [below.tree_eq here]
  cases node with
  | name text =>
      simp only [unfoldNode]
      split
      · rename_i word found
        exact words id text word reaches here found
      · trivial
  | string text =>
      simp only [unfoldNode]
      split <;> trivial
  | foreach vars iterable body =>
      obtain ⟨first, listed, -⟩ := Option.bind_eq_some_iff.mp listed
      have filled := loops id vars iterable body reaches here
      rw [listed] at filled
      rw [unfoldNode, unfoldList_eq listed]
      show first.map a.tree ≠ []
      simpa using filled
  | _ => trivial

/-- Where names are words and loops have variables, a text that is written is read, and as what it was written
    for: lone statements in place of bodies made sequences, and sequences without a statement made empty. -/
theorem parse_of_spelling {text : String} (grounded : a.Grounded root)
    (words : ∀ id text word, a.Reaches root id → a.node? id = some (.name text) →
      a.text? text = some word → Text.isWord word = true)
    (loops : ∀ id vars iterable body, a.Reaches root id →
      a.node? id = some (.foreach vars iterable body) → a.list? vars ≠ some [])
    (spelt : a.spelling root = .ok text) :
    ∃ ast, parse text none = .ok ast ∧ ast.tree = (a.tree root).asProgram.emptied := by
  have named := grounded.wellNamed words loops
  have read := Tree.readTree_of_spelling named spelt
  have whole := Tree.isWhole_of_isProper _ (Tree.fits_emptied named spelt).isProper
  exact ⟨_, parse_eq_ok.mpr ⟨_, read, rfl⟩, tree_toAst whole none⟩

/-- A choice whose clause holds a sequence without a statement, and otherwise a loop. -/
def hollowChoice : Arena where
  nodes := #[.conditional ⟨0, 1⟩ (some ⟨3⟩), .clause ⟨2⟩ ⟨4⟩, .name ⟨0⟩, .foreach ⟨1, 1⟩ ⟨2⟩ ⟨4⟩, .sequence ⟨0, 0⟩]
  lists := #[⟨1⟩, ⟨2⟩]
  texts := #["x"]
  maxNodes := none

theorem parse_of_spelling_hollowChoice :
    hollowChoice.spelling ⟨0⟩ = .ok "if x\nelse\n  foreach x : x\n  endforeach\nendif" ∧
    ∃ ast, parse "if x\nelse\n  foreach x : x\n  endforeach\nendif" none = .ok ast ∧
      ast.tree = (hollowChoice.tree ⟨0⟩).asProgram.emptied := by
  refine ⟨rfl, parse_of_spelling ?_ ?_ ?_ rfl⟩
  · exact .of_rank (fun id => [3, 1, 0, 2, 0].getD id.index 0) (by decide) (by decide)
  · intro id text word _ here found
    have member := Array.mem_of_getElem? here
    obtain rfl : text = ⟨0⟩ := by simpa [hollowChoice] using member
    obtain rfl : "x" = word := Option.some.inj found
    decide
  · intro id vars iterable body _ here
    have member := Array.mem_of_getElem? here
    obtain ⟨rfl, -⟩ : vars = ⟨1, 1⟩ ∧ _ := by simpa [hollowChoice] using member
    decide

/-- A loop without a variable. -/
def variablelessLoop : Arena where
  nodes := #[.name ⟨0⟩, .empty, .foreach ⟨0, 0⟩ ⟨0⟩ ⟨1⟩]
  lists := #[]
  texts := #["x"]
  maxNodes := none

/-- The one guard that is missing: a loop without a variable is written, but not as a program. -/
theorem parse_spelling_without_variable :
    variablelessLoop.Grounded ⟨2⟩ ∧
    (∀ id text word, variablelessLoop.Reaches ⟨2⟩ id → variablelessLoop.node? id = some (.name text) →
      variablelessLoop.text? text = some word → Text.isWord word = true) ∧
    variablelessLoop.spelling ⟨2⟩ = .ok "foreach  : x\nendforeach" ∧
    parse "foreach  : x\nendforeach" none = .error (.rejected .loopVariable) := by
  refine ⟨?_, ?_, rfl, ?_⟩
  · exact .of_rank NodeId.index (by decide) (by decide)
  · intro id text word _ here found
    have member := Array.mem_of_getElem? here
    obtain rfl : text = ⟨0⟩ := by simpa [variablelessLoop] using member
    obtain rfl : "x" = word := Option.some.inj found
    decide
  · decide +kernel

end BuildScript
