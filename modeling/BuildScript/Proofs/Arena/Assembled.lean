/-
Module: BuildScript.Proofs.Arena.Assembled
Layer: proofs about arenas
Purpose: Programs put together by hand are read back from their source text. Nothing keeps such a program from
  having any construct in any place; the writing refuses what the grammar has no place for, and what it
  does write is read as the program, up to lone statements that stand for a body.
Main exports: Arena.IsBody, Arena.Regular, Regular.readable, parse_spelling
-/
import BuildScript.Proofs.Arena.Unfold
import BuildScript.Proofs.Spelling.Conformance

namespace BuildScript

namespace Arena

variable {a : Arena} {root id body : NodeId}

/-- The node is what is done by the program of `root`, or in a clause, in an `else` or in a loop of it. -/
inductive IsBody (a : Arena) (root : NodeId) : NodeId → Prop where
  | program : IsBody a root root
  | clause {id predicate body} (reaches : a.Reaches root id)
      (here : a.node? id = some (.clause predicate body)) : IsBody a root body
  | otherwise {id clauses body} (reaches : a.Reaches root id)
      (here : a.node? id = some (.conditional clauses (some body))) : IsBody a root body
  | loop {id vars iterable body} (reaches : a.Reaches root id)
      (here : a.node? id = some (.foreach vars iterable body)) : IsBody a root body

/-- The program of `root` has words for its names, at least one variable for each of its loops, and no
    sequence without a statement for a body. -/
structure Regular (a : Arena) (root : NodeId) : Prop where
  words : ∀ id text word, a.Reaches root id → a.node? id = some (.name text) →
    a.text? text = some word → Text.isWord word = true
  loops : ∀ id vars iterable body, a.Reaches root id → a.node? id = some (.foreach vars iterable body) →
    a.list? vars ≠ some []
  bodies : ∀ body statements, a.IsBody root body → a.node? body = some (.sequence statements) →
    a.list? statements ≠ some []

/-- Bodies are among what the program leads to. -/
theorem IsBody.reaches (grounded : a.Grounded root) (h : a.IsBody root body) : a.Reaches root body := by
  cases h with
  | program => exact .refl root
  | @clause id predicate _ reaches here =>
      exact reaches.trans (isPart_of_mem here rfl (by simp)).reaches
  | @otherwise id clauses _ reaches here =>
      obtain ⟨ids, listed⟩ := grounded.exists_parts reaches here
      obtain ⟨first, -, ⟨⟩⟩ := Option.bind_eq_some_iff.mp listed
      exact reaches.trans (isPart_of_mem here listed (by simp)).reaches
  | @loop id vars iterable _ reaches here =>
      obtain ⟨ids, listed⟩ := grounded.exists_parts reaches here
      obtain ⟨first, -, ⟨⟩⟩ := Option.bind_eq_some_iff.mp listed
      exact reaches.trans (isPart_of_mem here listed (by simp)).reaches

namespace Regular

/-- No body of the program is an empty sequence. -/
theorem tree_ne (regular : a.Regular root) (grounded : a.Grounded root) (h : a.IsBody root body) :
    a.tree body ≠ .sequence [] := by
  have below := grounded.below (h.reaches grounded)
  obtain ⟨node, ids, here, listed⟩ := below.exists_node
  rw [below.tree_eq here]
  cases node with
  | sequence statements =>
      have filled := regular.bodies body statements h here
      have listed : a.list? statements = some ids := listed
      rw [unfoldNode, unfoldList_eq listed]
      simpa [listed] using filled
  | name text | string text =>
      simp only [unfoldNode]
      split <;> simp
  | _ => simp [unfoldNode]

/-- Whatever the program leads to can be read back, once it has been written. -/
theorem readable (regular : a.Regular root) (grounded : a.Grounded root) :
    (a.tree root).Throughout Tree.Readable := by
  intro x occurs
  obtain ⟨id, reaches, rfl⟩ := grounded.exists_of_occursIn occurs
  have below := grounded.below reaches
  obtain ⟨node, ids, here, listed⟩ := below.exists_node
  rw [below.tree_eq here]
  cases node with
  | name text =>
      simp only [unfoldNode]
      split
      · rename_i word found
        exact regular.words id text word reaches here found
      · trivial
  | string text =>
      simp only [unfoldNode]
      split <;> trivial
  | conditional clauses otherwise =>
      cases otherwise with
      | none => exact fun same => nomatch same
      | some body =>
          have filled := regular.tree_ne grounded (.otherwise reaches here)
          exact fun same => filled (Option.some.inj same)
  | clause predicate body => exact regular.tree_ne grounded (.clause reaches here)
  | foreach vars iterable body =>
      refine ⟨?_, regular.tree_ne grounded (.loop reaches here)⟩
      obtain ⟨first, listed, -⟩ := Option.bind_eq_some_iff.mp listed
      rw [unfoldList_eq listed]
      have filled := regular.loops id vars iterable body reaches here
      simpa [listed] using filled
  | _ => trivial

end Regular

end Arena

/-- The source text of a program put together by hand is read as the program, with lone statements in place
    of bodies made sequences. -/
theorem parse_spelling {a : Arena} {root : NodeId} {text : String} (grounded : a.Grounded root)
    (regular : a.Regular root) (spelt : a.spelling root = .ok text) :
    ∃ ast, parse text none = .ok ast ∧ ast.tree = (a.tree root).asProgram := by
  have readable := regular.readable grounded
  have body := regular.tree_ne grounded .program
  have read := Tree.readTree_spelling readable body spelt
  have whole := Tree.isWhole_of_isProper _ (Tree.fits_of_spelling readable body spelt).isProper
  exact ⟨_, parse_eq_ok.mpr ⟨_, read, rfl⟩, tree_toAst whole none⟩

/-- A choice with nodes that are shared and lie in no order. It is a program by itself, its clause does
    nothing, and what it does otherwise is a lone statement. -/
def sharingChoice : Arena where
  nodes := #[.conditional ⟨0, 1⟩ (some ⟨2⟩), .name ⟨0⟩, .assignment .add ⟨1⟩ ⟨5⟩, .empty, .clause ⟨1⟩ ⟨3⟩,
    .array ⟨1, 2⟩, .string ⟨1⟩]
  lists := #[⟨4⟩, ⟨6⟩, ⟨6⟩]
  texts := #["x", "it's"]
  maxNodes := none

/-- From each node of the choice the way down is at most three parts long. -/
theorem grounded_sharingChoice : sharingChoice.Grounded ⟨0⟩ := by
  apply Arena.Grounded.of_rank fun id => [3, 0, 2, 0, 1, 1, 0].getD id.index 0
  · decide
  · decide

/-- Its only name is a word, it has no loops, and no body of it is a sequence. -/
theorem regular_sharingChoice : sharingChoice.Regular ⟨0⟩ where
  words id text word _ here found := by
    have member := Array.mem_of_getElem? here
    obtain rfl : text = ⟨0⟩ := by simpa [sharingChoice] using member
    obtain rfl : "x" = word := Option.some.inj found
    decide
  loops id vars iterable body _ here := by
    have member := Array.mem_of_getElem? here
    simp [sharingChoice] at member
  bodies body statements _ here := by
    have member := Array.mem_of_getElem? here
    simp [sharingChoice] at member

theorem parse_spelling_sharingChoice : sharingChoice.Grounded ⟨0⟩ ∧ sharingChoice.Regular ⟨0⟩ ∧
    sharingChoice.spelling ⟨0⟩ = .ok "if x\nelse\n  x += ['''it's''', '''it's''']\nendif" ∧
    ∃ ast, parse "if x\nelse\n  x += ['''it's''', '''it's''']\nendif" none = .ok ast ∧
      ast.tree = (sharingChoice.tree ⟨0⟩).asProgram :=
  ⟨grounded_sharingChoice, regular_sharingChoice, rfl,
    parse_spelling grounded_sharingChoice regular_sharingChoice rfl⟩

end BuildScript
