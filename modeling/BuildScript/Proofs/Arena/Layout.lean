/-
Module: BuildScript.Proofs.Arena.Layout
Layer: proofs about arenas
Purpose: What laying out trees does to an arena. It only adds, one node for every construct, so the nodes of
  a tree are listed in the order of their numbers; following their references gives the tree back; and
  every list and text that is stored belongs to the node added right behind it.
Main exports: Arena.Extends, Arena.Tidy, Arena.Laid, laid_layOut
-/
import BuildScript.Arena.Layout
import BuildScript.Arena.Unfold
import BuildScript.Proofs.Arena.PostOrder
import BuildScript.Proofs.Tree.Part

namespace BuildScript

/-!
### What nodes take from the stores
-/

namespace Node

/-- The stretches of list storage that a node refers to, in the order in which they are stored. -/
def ranges : Node → List NodeRange
  | .sequence items | .array items | .dictionary items => [items]
  | .conditional clauses _ => [clauses]
  | .foreach vars _ _ => [vars]
  | .application _ args kwargs => [args, kwargs]
  | .empty | .assignment .. | .clause .. | .jump _ | .unary .. | .logical .. | .ternary ..
  | .arithmetic .. | .relational .. | .member .. | .index .. | .keywordArg .. | .name _ | .bool _
  | .number _ | .string _ | .keyValue .. => []

/-- The text of a name or a string. -/
def texts : Node → List TextId
  | .name text | .string text => [text]
  | .empty | .sequence _ | .assignment .. | .conditional .. | .clause .. | .foreach .. | .jump _
  | .unary .. | .logical .. | .ternary .. | .arithmetic .. | .relational .. | .member .. | .index ..
  | .application .. | .keywordArg .. | .bool _ | .number _ | .array _ | .dictionary _
  | .keyValue .. => []

end Node

/-- The stretches follow each other from `start` to `stop` without a gap and without an overlap. -/
def NodeRange.Tile : (start : Nat) → List NodeRange → (stop : Nat) → Prop
  | start, [], stop => start = stop
  | start, r :: rest, stop => r.start = start ∧ Tile r.stop rest stop

/-- Ranges that follow each other cover what both cover. -/
theorem NodeRange.Tile.append {first others : List NodeRange} {start middle stop : Nat}
    (h : Tile start first middle) (h' : Tile middle others stop) : Tile start (first ++ others) stop := by
  induction first generalizing start with
  | nil =>
      obtain rfl : start = middle := h
      exact h'
  | cons r rest ih => exact ⟨h.1, ih h.2⟩

/-- The texts with numbers from `start` up to `stop`. -/
def textsFrom (start count : Nat) : List TextId :=
  (List.range' start count).map TextId.mk

/-- The nodes with numbers from `start` on, `count` of them. -/
def nodesFrom (start count : Nat) : List NodeId :=
  (List.range' start count).map NodeId.mk

/-- Numbers in a row, split anywhere. -/
theorem nodesFrom_append (start m n : Nat) :
    nodesFrom start m ++ nodesFrom (start + m) n = nodesFrom start (m + n) := by
  simp [nodesFrom, ← List.map_append, List.range'_append_1]

/-- Texts in a row, split anywhere. -/
theorem textsFrom_append (start m n : Nat) :
    textsFrom start m ++ textsFrom (start + m) n = textsFrom start (m + n) := by
  simp [textsFrom, ← List.map_append, List.range'_append_1]

namespace Arena

/-!
### Extension
-/

/-- `b` holds everything that `a` holds, under the same numbers. -/
structure Extends (a b : Arena) : Prop where
  nodes : a.nodes.toList <+: b.nodes.toList
  lists : a.lists.toList <+: b.lists.toList
  texts : a.texts.toList <+: b.texts.toList
  maxNodes : b.maxNodes = a.maxNodes

theorem Extends.refl (a : Arena) : Extends a a :=
  ⟨List.prefix_refl _, List.prefix_refl _, List.prefix_refl _, rfl⟩

/-- What extends an extension extends the first arena as well. -/
theorem Extends.trans {a b c : Arena} (hab : Extends a b) (hbc : Extends b c) : Extends a c :=
  ⟨hab.nodes.trans hbc.nodes, hab.lists.trans hbc.lists, hab.texts.trans hbc.texts,
    hbc.maxNodes.trans hab.maxNodes⟩

/-- What an array holds at a place, a longer one that begins with it holds there too. -/
theorem getElem?_of_prefix {α : Type} {xs ys : Array α} (h : xs.toList <+: ys.toList) {i : Nat} {x : α}
    (hx : xs[i]? = some x) : ys[i]? = some x := by
  rw [← Array.getElem?_toList] at hx ⊢
  obtain ⟨rest, hrest⟩ := h
  rw [← hrest, List.getElem?_append_left (List.getElem?_eq_some_iff.mp hx).1]
  exact hx

variable {a b c : Arena}

theorem Extends.node? (h : Extends a b) {id : NodeId} {node : Node} (found : a.node? id = some node) :
    b.node? id = some node :=
  getElem?_of_prefix h.nodes found

theorem Extends.text? (h : Extends a b) {id : TextId} {text : String} (found : a.text? id = some text) :
    b.text? id = some text :=
  getElem?_of_prefix h.texts found

/-- Lists that have been stored stay where they are. -/
theorem Extends.list? (h : Extends a b) {r : NodeRange} {ids : List NodeId}
    (found : a.list? r = some ids) : b.list? r = some ids := by
  obtain ⟨rest, hrest⟩ := h.lists
  have size : b.lists.size = a.lists.size + rest.length := by
    rw [← Array.length_toList, ← hrest, List.length_append, Array.length_toList]
  unfold Arena.list? at found ⊢
  split at found
  · rename_i inside
    rw [if_pos (by omega), ← found]
    have start_le : r.stop - r.start ≤ a.lists.toList.length - r.start := by
      rw [Array.length_toList]
      exact Nat.sub_le_sub_right inside _
    simp only [Array.toList_extract, List.extract_eq_take_drop, ← hrest, Option.some.injEq]
    rw [List.drop_append, List.take_append_of_le_length (by rw [List.length_drop]; exact start_le)]
  · cases found

/-!
### Growing by one node
-/

/-- The arena with lists and texts and then a node that refers to them behind what it holds. -/
def grow (a : Arena) (lists : List NodeId) (texts : List String) (node : Node) : Arena :=
  { a with
    nodes := a.nodes.push node
    lists := a.lists ++ lists.toArray
    texts := a.texts ++ texts.toArray }

/-- Growing adds behind what there is. -/
theorem extends_grow (a : Arena) (lists : List NodeId) (texts : List String) (node : Node) :
    Extends a (a.grow lists texts node) where
  nodes := by simp [grow]
  lists := by simp [grow]
  texts := by simp [grow]
  maxNodes := rfl

/-- The new node is the last one. -/
theorem node?_grow (a : Arena) (lists : List NodeId) (texts : List String) (node : Node) :
    (a.grow lists texts node).node? ⟨a.nodes.size⟩ = some node := by
  simp [grow, node?]

/-- Every stored list and text belongs to a node, and they are stored in the order of the nodes. -/
structure Tidy (a : Arena) : Prop where
  lists : NodeRange.Tile 0 (a.nodes.toList.flatMap Node.ranges) a.lists.size
  texts : a.nodes.toList.flatMap Node.texts = textsFrom 0 a.texts.size

/-- An arena stays tidy when its new node takes what has just been stored. -/
theorem Tidy.grow (h : Tidy a) {lists : List NodeId} {texts : List String} {node : Node}
    (hlists : NodeRange.Tile a.lists.size node.ranges (a.lists.size + lists.length))
    (htexts : node.texts = textsFrom a.texts.size texts.length) : Tidy (a.grow lists texts node) where
  lists := by
    simp only [Arena.grow, Array.toList_push, List.flatMap_append, List.flatMap_cons, List.flatMap_nil,
      List.append_nil, Array.size_append, List.size_toArray]
    exact h.lists.append hlists
  texts := by
    simp only [Arena.grow, Array.toList_push, List.flatMap_append, List.flatMap_cons, List.flatMap_nil,
      List.append_nil, Array.size_append, List.size_toArray, h.texts, htexts]
    simpa using textsFrom_append 0 a.texts.size texts.length

/-- A list that is stored with the node is found by its range. -/
theorem list?_grow (a : Arena) (before ids after : List NodeId) (texts : List String) (node : Node) :
    (a.grow (before ++ ids ++ after) texts node).list? ⟨a.lists.size + before.length, ids.length⟩ =
      some ids := by
  have inside : a.lists.size + before.length + ids.length ≤
      (a.grow (before ++ ids ++ after) texts node).lists.size := by
    simp only [grow, Array.size_append, List.size_toArray, List.length_append]
    omega
  rw [list?, NodeRange.stop, if_pos inside]
  simp only [grow, Array.toList_extract, Array.toList_append, List.extract_eq_take_drop,
    List.append_assoc, Option.some.injEq]
  rw [← List.append_assoc, List.drop_left' (by simp), Nat.add_sub_cancel_left, List.take_left' rfl]

/-- A text that is stored with the node is found by its number. -/
theorem text?_grow (a : Arena) (lists : List NodeId) (text : String) (node : Node) :
    (a.grow lists [text] node).text? ⟨a.texts.size⟩ = some text := by
  simp [grow, text?]

/-!
### Laying out
-/

/-- Going from `a` to `b` lays out the trees `ts`, with `ids` for their roots. -/
structure Laid (a : Arena) (ts : List Tree) (ids : List NodeId) (b : Arena) : Prop where
  extension : Extends a b
  length : ids.length = ts.length
  size : b.nodes.size = a.nodes.size + Tree.sizes ts
  order : ∀ c, Extends b c → c.PostOrders ids (nodesFrom a.nodes.size (Tree.sizes ts))
  trees : Tree.areWhole ts → ∀ c, Extends b c → ∀ depth, Tree.sizes ts ≤ depth →
    ids.map (c.unfold depth) = ts
  tidy : Tidy a → Tidy b

theorem areWhole_append (ts us : List Tree) :
    Tree.areWhole (ts ++ us) = (Tree.areWhole ts && Tree.areWhole us) := by
  induction ts with
  | nil => simp [Tree.areWhole]
  | cons t ts ih => simp [Tree.areWhole, ih, Bool.and_assoc]

/-- Nodes in a row are listed one after the other. -/
theorem PostOrders.append {ids js listing others : List NodeId} (h : c.PostOrders ids listing)
    (h' : c.PostOrders js others) : c.PostOrders (ids ++ js) (listing ++ others) := by
  induction ids generalizing listing with
  | nil =>
      cases h
      exact h'
  | cons id ids ih =>
      cases h with
      | cons head tail =>
          rw [List.append_assoc]
          exact .cons head (ih tail)

namespace Laid

/-- No trees are laid out by doing nothing. -/
theorem nil (a : Arena) : Laid a [] [] a where
  extension := .refl a
  length := rfl
  size := rfl
  order _ _ := .nil
  trees _ _ _ _ _ := rfl
  tidy h := h

/-- Trees that are laid out one after the other are laid out in a row. -/
theorem append {ts us : List Tree} {ids js : List NodeId} (h : Laid a ts ids b)
    (h' : Laid b us js c) : Laid a (ts ++ us) (ids ++ js) c where
  extension := h.extension.trans h'.extension
  length := by rw [List.length_append, List.length_append, h.length, h'.length]
  size := by rw [h'.size, h.size, Tree.sizes_append, Nat.add_assoc]
  order d hd := by
    have later := h'.order d hd
    rw [h.size] at later
    rw [Tree.sizes_append, ← nodesFrom_append]
    exact (h.order d (h'.extension.trans hd)).append later
  trees whole d hd depth enough := by
    rw [areWhole_append, Bool.and_eq_true] at whole
    rw [Tree.sizes_append] at enough
    rw [List.map_append, h.trees whole.1 d (h'.extension.trans hd) depth (by omega),
      h'.trees whole.2 d hd depth (by omega)]
  tidy tidy := h'.tidy (h.tidy tidy)

/-- Parts that have been laid out become a tree by adding the node that refers to them. -/
theorem close {parts : List Tree} {ids lists : List NodeId} {texts : List String} {node : Node}
    {t : Tree} (h : Laid a parts ids b) (size : t.size = Tree.sizes parts + 1)
    (children : ∀ c, Extends (b.grow lists texts node) c → c.parts? node = some ids)
    (whole : t.isWhole = true → Tree.areWhole parts = true)
    (tree : ∀ c, Extends (b.grow lists texts node) c → ∀ sub, t.isWhole = true → ids.map sub = parts →
      c.unfoldNode sub node = t)
    (ranges : NodeRange.Tile b.lists.size node.ranges (b.lists.size + lists.length))
    (stored : node.texts = textsFrom b.texts.size texts.length) :
    Laid a [t] [⟨b.nodes.size⟩] (b.grow lists texts node) where
  extension := h.extension.trans (extends_grow b lists texts node)
  length := rfl
  size := by
    simp only [grow, Array.size_push, h.size, Tree.sizes, size]
    omega
  order c hc := by
    have found : c.children? ⟨b.nodes.size⟩ = some ids := by
      rw [children?, hc.node? (node?_grow b lists texts node)]
      exact children c hc
    have below := h.order c ((extends_grow b lists texts node).trans hc)
    have last : nodesFrom a.nodes.size (Tree.sizes parts) ++ [⟨b.nodes.size⟩] =
        nodesFrom a.nodes.size (Tree.sizes [t]) := by
      rw [h.size, Tree.sizes, Tree.sizes, size, Nat.add_zero, ← nodesFrom_append]
      rfl
    rw [← last]
    simpa using PostOrders.cons (.node found below) .nil
  trees twhole c hc depth enough := by
    have twhole : t.isWhole = true := by simpa [Tree.areWhole] using twhole
    obtain ⟨depth, rfl⟩ : ∃ d, depth = d + 1 := by
      rw [Tree.sizes, Tree.sizes, size] at enough
      exact ⟨depth - 1, by omega⟩
    have enough : Tree.sizes parts ≤ depth := by
      rw [Tree.sizes, Tree.sizes, size] at enough
      omega
    have below := h.trees (whole twhole) c ((extends_grow b lists texts node).trans hc) depth enough
    simp only [List.map_cons, List.map_nil, unfold, hc.node? (node?_grow b lists texts node)]
    rw [tree c hc _ twhole below]
  tidy tidy := (h.tidy tidy).grow ranges stored

/-- The case of a node without lists and texts of its own. -/
theorem close_node {parts : List Tree} {ids : List NodeId} {node : Node} {t : Tree}
    (h : Laid a parts ids b) (size : t.size = Tree.sizes parts + 1)
    (children : ∀ c : Arena, c.parts? node = some ids)
    (whole : t.isWhole = true → Tree.areWhole parts = true)
    (tree : ∀ (c : Arena) sub, t.isWhole = true → ids.map sub = parts → c.unfoldNode sub node = t)
    (ranges : node.ranges = []) (texts : node.texts = []) :
    Laid a [t] [(b.add node).1] (b.add node).2 := by
  have added : b.add node = (⟨b.nodes.size⟩, b.grow [] [] node) := by simp [add, grow]
  rw [added]
  refine h.close size (fun c _ => children c) whole (fun c _ => tree c) ?_ ?_
  · rw [ranges]
    rfl
  · rw [texts]
    rfl

/-- The case of a node with one list. -/
theorem close_list {parts : List Tree} {ids list : List NodeId} {t : Tree}
    (h : Laid a parts ids b) (node : NodeRange → Node) (size : t.size = Tree.sizes parts + 1)
    (children : ∀ (c : Arena) r, c.list? r = some list → c.parts? (node r) = some ids)
    (whole : t.isWhole = true → Tree.areWhole parts = true)
    (tree : ∀ (c : Arena) r sub, c.list? r = some list → ids.map sub = parts →
      c.unfoldNode sub (node r) = t)
    (ranges : ∀ r, (node r).ranges = [r]) (texts : ∀ r, (node r).texts = []) :
    Laid a [t] [((b.addList list).2.add (node (b.addList list).1)).1]
      ((b.addList list).2.add (node (b.addList list).1)).2 := by
  have added : (b.addList list).2.add (node (b.addList list).1) =
      (⟨b.nodes.size⟩, b.grow list [] (node ⟨b.lists.size, list.length⟩)) := by
    simp [add, addList, grow]
  have stored : ∀ c, Extends (b.grow list [] (node ⟨b.lists.size, list.length⟩)) c →
      c.list? ⟨b.lists.size, list.length⟩ = some list := by
    intro c hc
    simpa using hc.list? (by simpa using list?_grow b [] list [] [] _)
  rw [added]
  refine h.close size (fun c hc => children c _ (stored c hc)) whole
    (fun c hc sub _ => tree c _ sub (stored c hc)) ?_ ?_
  · rw [ranges]
    exact ⟨rfl, rfl⟩
  · rw [texts]
    rfl

/-- The case of a node with a text. -/
theorem close_text {t : Tree} {text : String} (h : Laid a [] [] b) (node : TextId → Node)
    (size : t.size = 1) (children : ∀ (c : Arena) i, c.parts? (node i) = some [])
    (tree : ∀ (c : Arena) i sub, c.text? i = some text → c.unfoldNode sub (node i) = t)
    (ranges : ∀ i, (node i).ranges = []) (texts : ∀ i, (node i).texts = [i]) :
    Laid a [t] [((b.addText text).2.add (node (b.addText text).1)).1]
      ((b.addText text).2.add (node (b.addText text).1)).2 := by
  have added : (b.addText text).2.add (node (b.addText text).1) =
      (⟨b.nodes.size⟩, b.grow [] [text] (node ⟨b.texts.size⟩)) := by
    simp [add, addText, grow]
  rw [added]
  refine h.close size (fun c _ => children c _) (fun _ => rfl)
    (fun c hc sub _ _ => tree c _ sub (hc.text? (text?_grow ..))) ?_ ?_
  · rw [ranges]
    rfl
  · rw [texts]
    rfl

/-- The case of a node with two lists. -/
theorem close_lists {parts : List Tree} {ids first second : List NodeId} {t : Tree}
    (h : Laid a parts ids b) (node : NodeRange → NodeRange → Node) (size : t.size = Tree.sizes parts + 1)
    (children : ∀ (c : Arena) r r', c.list? r = some first → c.list? r' = some second →
      c.parts? (node r r') = some ids)
    (whole : t.isWhole = true → Tree.areWhole parts = true)
    (tree : ∀ (c : Arena) r r' sub, c.list? r = some first → c.list? r' = some second →
      ids.map sub = parts → c.unfoldNode sub (node r r') = t)
    (ranges : ∀ r r', (node r r').ranges = [r, r']) (texts : ∀ r r', (node r r').texts = []) :
    Laid a [t]
      [(((b.addList first).2.addList second).2.add
        (node (b.addList first).1 ((b.addList first).2.addList second).1)).1]
      (((b.addList first).2.addList second).2.add
        (node (b.addList first).1 ((b.addList first).2.addList second).1)).2 := by
  have added : ((b.addList first).2.addList second).2.add
        (node (b.addList first).1 ((b.addList first).2.addList second).1) =
      (⟨b.nodes.size⟩, b.grow (first ++ second) []
        (node ⟨b.lists.size, first.length⟩ ⟨b.lists.size + first.length, second.length⟩)) := by
    simp [add, addList, grow]
  have stored : ∀ c, Extends (b.grow (first ++ second) []
        (node ⟨b.lists.size, first.length⟩ ⟨b.lists.size + first.length, second.length⟩)) c →
      c.list? ⟨b.lists.size, first.length⟩ = some first ∧
        c.list? ⟨b.lists.size + first.length, second.length⟩ = some second := by
    intro c hc
    exact ⟨hc.list? (by simpa using list?_grow b [] first second [] _),
      hc.list? (by simpa using list?_grow b first second [] [] _)⟩
  rw [added]
  refine h.close size (fun c hc => children c _ _ (stored c hc).1 (stored c hc).2) whole
    (fun c hc sub _ => tree c _ _ sub (stored c hc).1 (stored c hc).2) ?_ ?_
  · rw [ranges]
    exact ⟨rfl, rfl, by simp [NodeRange.Tile, NodeRange.stop, Nat.add_assoc]⟩
  · rw [texts]
    rfl

/-- The root of a tree is the last node that is added for it. -/
theorem root_last {t : Tree} {id : NodeId} (h : Laid a [t] [id] b) : id.index + 1 = b.nodes.size := by
  have size := h.size
  have last := (h.order b (.refl b)).singleton.getLast?
  simp only [nodesFrom, List.getLast?_map, List.getLast?_range'] at last
  split at last
  · simp at last
  · rw [← Option.some.inj last]
    simp only
    omega

end Laid

end Arena

open Arena BuildScript.Tree

/-!
### Constructs with lists among their parts
-/

namespace Arena.Laid

variable {a b c d : Arena}

/-- A conditional, from its clauses and its last branch. -/
theorem conditional {clauses : List Tree} {otherwise : Option Tree} {ids : List NodeId} {id? : Option NodeId}
    (first : Laid a clauses ids b) (second : Laid b otherwise.toList id?.toList c) :
    Laid a [.conditional clauses otherwise]
      [((c.addList ids).2.add (.conditional (c.addList ids).1 id?)).1]
      ((c.addList ids).2.add (.conditional (c.addList ids).1 id?)).2 := by
  refine (first.append second).close_list (.conditional · id?) ?_ ?_ ?_ ?_ (fun _ => rfl) (fun _ => rfl)
  · cases otherwise <;> simp [Tree.size, sizes_append, sizes, sizeOption]
  · intro c r h
    simp [parts?, h]
  · cases otherwise <;> simp [isWhole, areWhole_append, areWhole, isWholeOption]
  · intro c r sub h same
    rw [List.map_append] at same
    obtain ⟨clauses_same, last_same⟩ := List.append_inj same (by simpa using first.length)
    have last_same : id?.map sub = otherwise := by simpa using congrArg List.head? last_same
    simp [unfoldNode, unfoldList, h, clauses_same, last_same]

/-- A loop, from its variables, what it runs over and its body. -/
theorem foreach {vars : List Tree} {iterable body : Tree} {ids : List NodeId} {i j : NodeId}
    (first : Laid a vars ids b) (second : Laid b [iterable] [i] c) (third : Laid c [body] [j] d) :
    Laid a [.foreach vars iterable body]
      [((d.addList ids).2.add (.foreach (d.addList ids).1 i j)).1]
      ((d.addList ids).2.add (.foreach (d.addList ids).1 i j)).2 := by
  refine (first.append (second.append third)).close_list (.foreach · i j) ?_ ?_ ?_ ?_ (fun _ => rfl)
    (fun _ => rfl)
  · simp [Tree.size, sizes_append, sizes, Nat.add_assoc]
  · intro c r h
    simp [parts?, h]
  · simp [isWhole, areWhole_append, areWhole, and_assoc]
  · intro c r sub h same
    rw [List.map_append] at same
    obtain ⟨vars_same, parts_same⟩ := List.append_inj same (by simpa using first.length)
    simp at parts_same
    simp [unfoldNode, unfoldList, h, vars_same, parts_same]

/-- A call, from its callee and the two rows of its arguments. -/
theorem application {callee : Tree} {args kwargs : List Tree} {i : NodeId} {ids js : List NodeId}
    (first : Laid a [callee] [i] b) (second : Laid b args ids c) (third : Laid c kwargs js d) :
    Laid a [.application callee args kwargs]
      [(((d.addList ids).2.addList js).2.add
        (.application i (d.addList ids).1 ((d.addList ids).2.addList js).1)).1]
      (((d.addList ids).2.addList js).2.add
        (.application i (d.addList ids).1 ((d.addList ids).2.addList js).1)).2 := by
  refine (first.append (second.append third)).close_lists (.application i) ?_ ?_ ?_ ?_ (fun _ _ => rfl)
    (fun _ _ => rfl)
  · simp [Tree.size, sizes_append, sizes, Nat.add_assoc]
  · intro c r r' h h'
    simp [parts?, h, h']
  · simp [isWhole, areWhole_append, areWhole, and_assoc]
  · intro c r r' sub h h' same
    rw [List.map_append] at same
    obtain ⟨callee_same, rest_same⟩ := List.append_inj same rfl
    rw [List.map_append] at rest_same
    obtain ⟨args_same, kwargs_same⟩ := List.append_inj rest_same (by simpa using second.length)
    simp at callee_same
    simp [unfoldNode, unfoldList, h, h', callee_same, args_same, kwargs_same]

end Arena.Laid

/-!
### Trees
-/

mutual

/-- Laying out a tree. -/
theorem laid_layOut : ∀ (t : Tree) (a : Arena), Laid a [t] [(t.layOut a).1] (t.layOut a).2
  | .empty, a | .jump _, a | .bool _, a | .number _, a => by
      rw [layOut]
      exact (Laid.nil a).close_node rfl (fun _ => rfl) (fun _ => rfl) (fun _ _ _ _ => rfl) rfl rfl
  | .missing _, a => by
      rw [layOut]
      exact (Laid.nil a).close_node rfl (fun _ => rfl) (fun _ => rfl)
        (fun _ _ whole _ => by simp [isWhole] at whole) rfl rfl
  | .name _, a => by
      rw [layOut]
      exact (Laid.nil a).close_text .name rfl (fun _ _ => rfl) (fun c i sub h => by simp [unfoldNode, h])
        (fun _ => rfl) (fun _ => rfl)
  | .string _, a => by
      rw [layOut]
      exact (Laid.nil a).close_text .string rfl (fun _ _ => rfl) (fun c i sub h => by simp [unfoldNode, h])
        (fun _ => rfl) (fun _ => rfl)
  | .unary _ x, a => by
      rw [layOut]
      refine (laid_layOut x a).close_node rfl (fun _ => rfl) ?_ ?_ rfl rfl
      · simp [isWhole, areWhole]
      · intro c sub _ h
        simpa [unfoldNode] using h
  | .assignment _ x y, a | .clause x y, a | .logical _ x y, a | .arithmetic _ x y, a
  | .relational _ x y, a | .member x y, a | .index x y, a | .keywordArg x y, a | .keyValue x y, a => by
      rw [layOut]
      refine ((laid_layOut x a).append (laid_layOut y _)).close_node rfl (fun _ => rfl) ?_ ?_ rfl rfl
      · simp [isWhole, areWhole]
      · intro c sub _ h
        simpa [unfoldNode] using h
  | .ternary condition yes no, a => by
      rw [layOut]
      refine ((laid_layOut condition a).append ((laid_layOut yes _).append (laid_layOut no _))).close_node
        ?_ (fun _ => rfl) ?_ ?_ rfl rfl
      · simp [size, sizes, Nat.add_assoc]
      · simp [isWhole, areWhole, and_assoc]
      · intro c sub _ h
        simpa [unfoldNode] using h
  | .sequence items, a => by
      rw [layOut]
      refine (laid_layOutAll items a).close_list .sequence rfl (fun _ _ h => h) ?_ ?_ (fun _ => rfl)
        (fun _ => rfl)
      · simp [isWhole]
      · intro c r sub h hsub
        simp [unfoldNode, unfoldList, h, hsub]
  | .array items, a => by
      rw [layOut]
      refine (laid_layOutAll items a).close_list .array rfl (fun _ _ h => h) ?_ ?_ (fun _ => rfl)
        (fun _ => rfl)
      · simp [isWhole]
      · intro c r sub h hsub
        simp [unfoldNode, unfoldList, h, hsub]
  | .dictionary entries, a => by
      rw [layOut]
      refine (laid_layOutAll entries a).close_list .dictionary rfl (fun _ _ h => h) ?_ ?_ (fun _ => rfl)
        (fun _ => rfl)
      · simp [isWhole]
      · intro c r sub h hsub
        simp [unfoldNode, unfoldList, h, hsub]
  | .conditional clauses otherwise, a => by
      rw [layOut]
      exact (laid_layOutAll clauses a).conditional (laid_layOutOption otherwise _)
  | .foreach vars iterable body, a => by
      rw [layOut]
      exact (laid_layOutAll vars a).foreach (laid_layOut iterable _) (laid_layOut body _)
  | .application callee args kwargs, a => by
      rw [layOut]
      exact (laid_layOut callee a).application (laid_layOutAll args _) (laid_layOutAll kwargs _)

/-- Trees are laid out in the order in which they stand. -/
theorem laid_layOutAll : ∀ (ts : List Tree) (a : Arena),
    Laid a ts (layOutAll ts a).1 (layOutAll ts a).2
  | [], a => by
      rw [layOutAll]
      exact .nil a
  | t :: ts, a => by
      rw [layOutAll]
      exact (laid_layOut t a).append (laid_layOutAll ts _)

/-- What may be missing is laid out if it is there. -/
theorem laid_layOutOption : ∀ (t? : Option Tree) (a : Arena),
    Laid a t?.toList (layOutOption t? a).1.toList (layOutOption t? a).2
  | none, a => by
      rw [layOutOption]
      exact .nil a
  | some t, a => by
      rw [layOutOption]
      exact laid_layOut t a

end

end BuildScript
