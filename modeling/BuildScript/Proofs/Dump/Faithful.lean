/-
Module: BuildScript.Proofs.Dump.Faithful
Layer: proofs about dumps
Purpose: Programs that are read are the same if and only if their dumps are. Two things have to be told: a tree
  from its shape, which takes the role that the tree plays, and a shape from its text, which takes names,
  numbers and strings that end where the dump says they do. A backquote in a string would hide its end.
Main exports: Tree.shape_injective, isReadable_shape, sexpr_eq_iff
-/
import BuildScript.Proofs.Dump.Shape

namespace BuildScript

namespace Tree

/-!
### From shapes to trees
-/

/-- The tag of the construct, if it is no bare pair. -/
def tag? : Tree → Option Tag
  | .empty => some .empty
  | .sequence _ => some .sequence
  | .assignment op _ _ => some (.assignment op)
  | .conditional .. => some .conditional
  | .foreach .. => some .foreach
  | .jump kind => some (.jump kind)
  | .unary .. => some .unary
  | .logical op _ _ => some (.logical op)
  | .ternary .. => some .ternary
  | .arithmetic op _ _ => some (.arithmetic op)
  | .relational op _ _ => some (.relational op)
  | .member .. => some .member
  | .index .. => some .index
  | .application .. => some .application
  | .name _ => some .name
  | .bool _ => some .bool
  | .number _ => some .number
  | .string _ => some .string
  | .array _ => some .array
  | .dictionary _ => some .dictionary
  | .missing _ => some .missing
  | .clause .. | .keywordArg .. | .keyValue .. => none

/-- Every shape is a list with something in it. -/
theorem exists_shape_eq_list (t : Tree) : ∃ head others, t.shape = .list head others := by
  cases t <;> simp only [shape] <;> exact ⟨_, _, rfl⟩

/-- The tag that a list begins with. -/
def headTag? : Sexpr → Option Tag
  | .list (.atom word) _ => Tag.ofWord? word
  | _ => none

/-- The construct of a shape is told from its first element, except that all pairs look alike. -/
theorem headTag?_shape (t : Tree) : headTag? t.shape = t.tag? := by
  have pair {head : Tree} {others : List Sexpr} : headTag? (.list head.shape others) = none := by
    obtain ⟨first, rest, list⟩ := exists_shape_eq_list head
    rw [list]
    rfl
  cases t with
  | clause | keywordArg | keyValue => rw [shape]; exact pair
  | _ => rw [shape]; exact Tag.ofWord?_word _

theorem shapes_eq_map (ts : List Tree) : shapes ts = ts.map shape := by
  induction ts with
  | nil => rfl
  | cons t ts ih => rw [shapes, ih, List.map_cons]

/-- A labelled list is told from what follows it by its label. -/
theorem grouped_append_cancel {label : String} {xs ys : List Sexpr} {a b c d : Sexpr}
    (same : grouped label xs ++ [a, b] = grouped label ys ++ [c, d]) : xs = ys ∧ a = c ∧ b = d := by
  cases xs <;> cases ys <;> simp_all [grouped]

/-- Two labelled lists, either of which may be left out, are told apart by their labels. -/
theorem grouped_cancel {xs ys xs' ys' : List Sexpr}
    (same : grouped "args" xs ++ grouped "kw-args" ys = grouped "args" xs' ++ grouped "kw-args" ys') :
    xs = xs' ∧ ys = ys' := by
  cases xs <;> cases ys <;> cases xs' <;> cases ys' <;> simp_all [grouped]

/-- Clauses are told from the body behind them, since they begin with no atom. -/
theorem shapes_shapeElse_cancel {clauses clauses' : List Tree} {otherwise otherwise' : Option Tree}
    (pairs : ∀ t ∈ clauses, Role.clause.admits t = true) (pairs' : ∀ t ∈ clauses', Role.clause.admits t = true)
    (same : shapes clauses ++ shapeElse otherwise = shapes clauses' ++ shapeElse otherwise') :
    shapes clauses = shapes clauses' ∧ otherwise.map shape = otherwise'.map shape := by
  have noElse {clauses : List Tree} (pairs : ∀ t ∈ clauses, Role.clause.admits t = true) (body : Sexpr) :
      .list (.atom "else") [body] ∉ shapes clauses := by
    rw [shapes_eq_map, List.mem_map]
    rintro ⟨t, member, shaped⟩
    have admitted := pairs t member
    cases t with
    | clause predicate body =>
        obtain ⟨head, others, list⟩ := exists_shape_eq_list predicate
        rw [shape, list] at shaped
        cases shaped
    | _ => cases admitted
  cases otherwise with
  | none =>
      cases otherwise' with
      | none => simpa [shapeElse] using same
      | some body' =>
          simp only [shapeElse, List.append_nil] at same
          exact absurd (by simp [same]) (noElse pairs body'.shape)
  | some body =>
      cases otherwise' with
      | none =>
          simp only [shapeElse, List.append_nil] at same
          exact absurd (by simp [← same]) (noElse pairs' body.shape)
      | some body' =>
          obtain ⟨clauses, last⟩ := List.append_inj' same rfl
          simp only [shapeElse, List.cons.injEq, Sexpr.list.injEq, true_and, and_true] at last
          exact ⟨clauses, congrArg some last⟩

/-- Trees in a row are told by their shapes if each of them is. -/
theorem shapes_injective {ts us : List Tree} (each : ∀ a ∈ ts, ∀ b ∈ us, a.shape = b.shape → a = b)
    (same : shapes ts = shapes us) : ts = us := by
  induction ts generalizing us with
  | nil =>
      cases us with
      | nil => rfl
      | cons => cases same
  | cons t ts ih =>
      cases us with
      | nil => cases same
      | cons u us =>
          obtain ⟨first, others⟩ := List.cons.inj same
          have rest := ih (fun a left b right =>
            each a (List.mem_cons_of_mem _ left) b (List.mem_cons_of_mem _ right)) others
          rw [each t List.mem_cons_self u List.mem_cons_self first, rest]

/-- A number that a source can have is not negative. -/
theorem not_lt_zero_of_isComplete {value : Int64} (complete : (number value).isComplete = true) :
    ¬ value < 0 := by
  simpa [isComplete] using complete

/-- Numbers that are not negative are told by their digits. -/
theorem decimal_injective {value value' : Int64} (positive : ¬ value < 0) (positive' : ¬ value' < 0)
    (same : Text.decimal value = Text.decimal value') : value = value' := by
  have read := Numeral.value?_decimal positive
  rw [same, Numeral.value?_decimal positive'] at read
  exact (Option.some.inj read).symm

/-- The three prefixes have different words. -/
theorem unaryWord_injective {op op' : PrefixOp} (same : unaryWord op = unaryWord op') : op = op' := by
  cases op <;> cases op' <;> simp_all [unaryWord]

/-- Parts of the two constructs that are in one role and have one shape are the same. -/
def PartsTold (t u : Tree) : Prop :=
  ∀ {role : Role} {a b : Tree}, (role, a) ∈ t.roles → (role, b) ∈ u.roles → a.shape = b.shape → a = b

namespace PartsTold

variable {t u : Tree}

/-- Two parts in the same roles are told by their shapes. -/
theorem pair {role role' : Role} {a b c d : Tree} (told : PartsTold t u)
    (left : t.roles = [(role, a), (role', b)]) (right : u.roles = [(role, c), (role', d)])
    (same : [a.shape, b.shape] = [c.shape, d.shape]) : a = c ∧ b = d := by
  simp only [List.cons.injEq, and_true] at same
  rw [PartsTold, left, right] at told
  exact ⟨told (.head _) (.head _) same.1, told (.tail _ (.head _)) (.tail _ (.head _)) same.2⟩

/-- Parts of one role, however many, are told by their shapes. -/
theorem row {role : Role} {ts us : List Tree} (told : PartsTold t u) (left : ∀ a ∈ ts, (role, a) ∈ t.roles)
    (right : ∀ b ∈ us, (role, b) ∈ u.roles) (same : shapes ts = shapes us) : ts = us :=
  shapes_injective (fun a ha b hb => told (left a ha) (right b hb)) same

/-- A conditional expression is told by the shapes of its three parts. -/
theorem ternary {condition condition' yes yes' no no' : Tree}
    (told : PartsTold (.ternary condition yes no) (.ternary condition' yes' no'))
    (same : (Tree.ternary condition yes no).shape = (Tree.ternary condition' yes' no').shape) :
    Tree.ternary condition yes no = .ternary condition' yes' no' := by
  simp only [shape, tagged, Sexpr.list.injEq, List.cons.injEq, true_and, and_true] at same
  obtain ⟨first, second, third⟩ := same
  have condition_eq := told (.head _) (.head _) first
  have yes_eq := told (.tail _ (.head _)) (.tail _ (.head _)) second
  have no_eq := told (.tail _ (.tail _ (.head _))) (.tail _ (.tail _ (.head _))) third
  rw [condition_eq, yes_eq, no_eq]

/-- Where the clauses end and whether there is a last branch is told by the shapes of both. -/
theorem conditional {clauses clauses' : List Tree} {otherwise otherwise' : Option Tree} {role role' : Role}
    (told : PartsTold (.conditional clauses otherwise) (.conditional clauses' otherwise'))
    (fits : Fits role (.conditional clauses otherwise)) (fits' : Fits role' (.conditional clauses' otherwise'))
    (same : (Tree.conditional clauses otherwise).shape = (Tree.conditional clauses' otherwise').shape) :
    Tree.conditional clauses otherwise = .conditional clauses' otherwise' := by
  simp only [shape, tagged, Sexpr.list.injEq, true_and] at same
  have member {clauses : List Tree} {otherwise : Option Tree} : ∀ t ∈ clauses,
      (Role.clause, t) ∈ (Tree.conditional clauses otherwise).roles :=
    fun t inside => List.mem_append_left _ (List.mem_map_of_mem inside)
  have body {clauses : List Tree} {otherwise : Option Tree} : ∀ t ∈ otherwise.toList,
      (Role.body, t) ∈ (Tree.conditional clauses otherwise).roles :=
    fun t inside => List.mem_append_right _ (List.mem_map_of_mem inside)
  obtain ⟨first, second⟩ := shapes_shapeElse_cancel (fun t inside => (fits.parts _ (member t inside)).1)
    (fun t inside => (fits'.parts _ (member t inside)).1) same
  have clauses_eq := told.row member member first
  have otherwise_eq : otherwise = otherwise' := by
    cases otherwise with
    | none =>
        cases otherwise' with
        | none => rfl
        | some => cases second
    | some t =>
        cases otherwise' with
        | none => cases second
        | some u => rw [told (body t (.head _)) (body u (.head _)) (Option.some.inj second)]
  rw [clauses_eq, otherwise_eq]

/-- Where the variables end is told by their label. -/
theorem foreach {vars vars' : List Tree} {iterable iterable' body body' : Tree}
    (told : PartsTold (.foreach vars iterable body) (.foreach vars' iterable' body'))
    (same : (Tree.foreach vars iterable body).shape = (Tree.foreach vars' iterable' body').shape) :
    Tree.foreach vars iterable body = .foreach vars' iterable' body' := by
  simp only [shape, tagged, Sexpr.list.injEq, true_and] at same
  obtain ⟨first, second, third⟩ := grouped_append_cancel same
  have vars_eq := told.row (fun _ inside => List.mem_append_left _ (List.mem_map_of_mem inside))
    (fun _ inside => List.mem_append_left _ (List.mem_map_of_mem inside)) first
  have iterable_eq := told (List.mem_append_right _ (.head _)) (List.mem_append_right _ (.head _)) second
  have body_eq := told (List.mem_append_right _ (.tail _ (.head _)))
    (List.mem_append_right _ (.tail _ (.head _))) third
  rw [vars_eq, iterable_eq, body_eq]

/-- Which arguments are positional is told by the labels. -/
theorem application {callee callee' : Tree} {args args' kwargs kwargs' : List Tree}
    (told : PartsTold (.application callee args kwargs) (.application callee' args' kwargs'))
    (same : (Tree.application callee args kwargs).shape = (Tree.application callee' args' kwargs').shape) :
    Tree.application callee args kwargs = .application callee' args' kwargs' := by
  simp only [shape, tagged, Sexpr.list.injEq, List.cons.injEq, true_and] at same
  obtain ⟨positional, keyword⟩ := grouped_cancel same.2
  have callee_eq := told (.head _) (.head _) same.1
  have args_eq :=
    told.row (fun _ inside => .tail _ (List.mem_append_left _ (List.mem_map_of_mem inside)))
      (fun _ inside => .tail _ (List.mem_append_left _ (List.mem_map_of_mem inside))) positional
  have kwargs_eq :=
    told.row (fun _ inside => .tail _ (List.mem_append_right _ (List.mem_map_of_mem inside)))
      (fun _ inside => .tail _ (List.mem_append_right _ (List.mem_map_of_mem inside))) keyword
  rw [callee_eq, args_eq, kwargs_eq]

end PartsTold

/-- What stands in the shape of a construct besides its tag. -/
inductive Form where
  /-- A word or a text, or nothing. -/
  | leaf
  /-- The shapes of one list of parts. -/
  | row
  /-- The shapes of two parts behind the tag. -/
  | operation
  /-- The shapes of two parts without a tag. -/
  | pair
  | other
deriving DecidableEq, Repr, Inhabited

/-- The form of the construct. -/
def form : Tree → Form
  | .empty | .jump _ | .name _ | .bool _ | .number _ | .string _ => .leaf
  | .sequence _ | .array _ | .dictionary _ => .row
  | .assignment .. | .logical .. | .arithmetic .. | .relational .. | .member .. | .index .. => .operation
  | .clause .. | .keywordArg .. | .keyValue .. => .pair
  | .conditional .. | .foreach .. | .unary .. | .ternary .. | .application .. | .missing _ => .other

/-- A leaf is told from its tag and the text behind it. A number is the one that its decimal digits are for,
    since no sign stands in front of them. -/
theorem leaf_injective {t u : Tree} {role : Role} (leaf : t.form = .leaf) (tags : t.tag? = u.tag?)
    (fits : Fits role t) (fits' : Fits role u) (same : t.shape = u.shape) : t = u := by
  cases t with
  | empty =>
      cases u with
      | empty => rfl
      | _ => cases tags
  | jump kind =>
      cases u with
      | jump kind' =>
          cases tags
          rfl
      | _ => cases tags
  | name text =>
      cases u with
      | name text' =>
          cases same
          rfl
      | _ => cases tags
  | string content =>
      cases u with
      | string content' =>
          cases same
          rfl
      | _ => cases tags
  | bool value =>
      cases u with
      | bool value' => cases value <;> cases value' <;> simp_all [shape, tagged]
      | _ => cases tags
  | number value =>
      cases u with
      | number value' =>
          simp only [shape, tagged, Sexpr.list.injEq, List.cons.injEq, Sexpr.atom.injEq, true_and,
            and_true] at same
          rw [decimal_injective (not_lt_zero_of_isComplete fits.isComplete)
            (not_lt_zero_of_isComplete fits'.isComplete) same]
      | _ => cases tags
  | _ => cases leaf

namespace PartsTold

variable {t u : Tree}

/-- A list is told from its tag and its elements. -/
theorem of_row (told : PartsTold t u) (row : t.form = .row) (tags : t.tag? = u.tag?)
    (same : t.shape = u.shape) : t = u := by
  cases t with
  | sequence ts =>
      cases u with
      | sequence us =>
          rw [told.row (fun _ => List.mem_map_of_mem) (fun _ => List.mem_map_of_mem) (Sexpr.list.inj same).2]
      | _ => cases tags
  | array ts =>
      cases u with
      | array us =>
          rw [told.row (fun _ => List.mem_map_of_mem) (fun _ => List.mem_map_of_mem) (Sexpr.list.inj same).2]
      | _ => cases tags
  | dictionary ts =>
      cases u with
      | dictionary us =>
          rw [told.row (fun _ => List.mem_map_of_mem) (fun _ => List.mem_map_of_mem) (Sexpr.list.inj same).2]
      | _ => cases tags
  | _ => cases row

/-- An operation is told from its tag, which has the operator, and its operands. -/
theorem of_operation (told : PartsTold t u) (operation : t.form = .operation) (tags : t.tag? = u.tag?)
    (same : t.shape = u.shape) : t = u := by
  cases t with
  | assignment op a b =>
      cases u with
      | assignment op' c d =>
          cases tags
          obtain ⟨rfl, rfl⟩ := told.pair rfl rfl (Sexpr.list.inj same).2
          rfl
      | _ => cases tags
  | logical op a b =>
      cases u with
      | logical op' c d =>
          cases tags
          obtain ⟨rfl, rfl⟩ := told.pair rfl rfl (Sexpr.list.inj same).2
          rfl
      | _ => cases tags
  | arithmetic op a b =>
      cases u with
      | arithmetic op' c d =>
          cases tags
          obtain ⟨rfl, rfl⟩ := told.pair rfl rfl (Sexpr.list.inj same).2
          rfl
      | _ => cases tags
  | relational op a b =>
      cases u with
      | relational op' c d =>
          cases tags
          obtain ⟨rfl, rfl⟩ := told.pair rfl rfl (Sexpr.list.inj same).2
          rfl
      | _ => cases tags
  | member a b =>
      cases u with
      | member c d =>
          obtain ⟨rfl, rfl⟩ := told.pair rfl rfl (Sexpr.list.inj same).2
          rfl
      | _ => cases tags
  | index a b =>
      cases u with
      | index c d =>
          obtain ⟨rfl, rfl⟩ := told.pair rfl rfl (Sexpr.list.inj same).2
          rfl
      | _ => cases tags
  | _ => cases operation

/-- Bare pairs have no tag, but only one of the three kinds has the role. -/
theorem of_pair (told : PartsTold t u) (pair : t.form = .pair) {role : Role}
    (admitted : role.admits t = true) (admitted' : role.admits u = true) (same : t.shape = u.shape) :
    t = u := by
  cases t with
  | clause a b =>
      obtain rfl : role = .clause := by
        cases role <;> first | rfl | cases admitted
      cases u with
      | clause c d =>
          obtain ⟨head, others⟩ := Sexpr.list.inj same
          obtain ⟨rfl, rfl⟩ := told.pair rfl rfl (congrArg₂ List.cons head others)
          rfl
      | _ => cases admitted'
  | keywordArg a b =>
      obtain rfl : role = .keywordArg := by
        cases role <;> first | rfl | cases admitted
      cases u with
      | keywordArg c d =>
          obtain ⟨head, others⟩ := Sexpr.list.inj same
          obtain ⟨rfl, rfl⟩ := told.pair rfl rfl (congrArg₂ List.cons head others)
          rfl
      | _ => cases admitted'
  | keyValue a b =>
      obtain rfl : role = .entry := by
        cases role <;> first | rfl | cases admitted
      cases u with
      | keyValue c d =>
          obtain ⟨head, others⟩ := Sexpr.list.inj same
          obtain ⟨rfl, rfl⟩ := told.pair rfl rfl (congrArg₂ List.cons head others)
          rfl
      | _ => cases admitted'
  | _ => cases pair

/-- A prefix is told by its word, and its operand by its shape. -/
theorem unary {op op' : PrefixOp} {operand operand' : Tree}
    (told : PartsTold (.unary op operand) (.unary op' operand'))
    (same : (Tree.unary op operand).shape = (Tree.unary op' operand').shape) :
    Tree.unary op operand = .unary op' operand' := by
  simp only [shape, tagged, Sexpr.list.injEq, List.cons.injEq, Sexpr.atom.injEq, true_and, and_true] at same
  rw [unaryWord_injective same.1, told (.head _) (.head _) same.2]

end PartsTold

/-- No two trees in one role have one shape. -/
theorem shape_injective {t : Tree} : ∀ {role : Role} {u : Tree}, Fits role t → Fits role u →
    t.shape = u.shape → t = u := by
  induction t using inductionOnParts with
  | step t ih =>
      intro role u fits fits' same
      have tags : t.tag? = u.tag? := by rw [← headTag?_shape, ← headTag?_shape, same]
      have told : PartsTold t u := fun {role a b} left right same =>
        ih a (List.mem_map_of_mem left) (fits.parts _ left) (fits'.parts _ right) same
      cases form : t.form with
      | leaf => exact leaf_injective form tags fits fits' same
      | row => exact told.of_row form tags same
      | operation => exact told.of_operation form tags same
      | pair => exact told.of_pair form fits.1 fits'.1 same
      | other =>
          cases t with
          | unary =>
              cases u with
              | unary => exact told.unary same
              | _ => cases tags
          | ternary =>
              cases u with
              | ternary => exact told.ternary same
              | _ => cases tags
          | conditional =>
              cases u with
              | conditional => exact told.conditional fits fits' same
              | _ => cases tags
          | foreach =>
              cases u with
              | foreach => exact told.foreach same
              | _ => cases tags
          | application =>
              cases u with
              | application => exact told.application same
              | _ => cases tags
          | missing gap => cases fits.isComplete
          | _ => cases form

/-!
### Readable shapes
-/

/-- The bytes of a text are those of its characters. -/
theorem bytes_eq_flatMap (s : String) : Text.bytes s = s.toList.flatMap String.utf8EncodeChar := by
  obtain ⟨chars, rfl⟩ : ∃ chars, s = String.ofList chars := ⟨s.toList, by simp⟩
  simp [Text.bytes, List.utf8Encode]

/-- A text of letters, digits and underscores is an atom. -/
theorem isAtom_of_isWordByte {s : String} (nonempty : Text.bytes s ≠ [])
    (bytes : ∀ b ∈ Text.bytes s, Byte.isWordByte b = true) : Sexpr.isAtom s = true := by
  rw [bytes_eq_flatMap] at nonempty bytes
  simp only [Sexpr.isAtom, Bool.and_eq_true, Bool.not_eq_true', List.isEmpty_eq_false_iff, List.all_eq_true]
  refine ⟨fun empty => nonempty (by simp [empty]), fun c inside => ?_⟩
  have byte {b : UInt8} (encoded : b ∈ String.utf8EncodeChar c) : Byte.isWordByte b = true :=
    bytes b (List.mem_flatMap.mpr ⟨c, inside, encoded⟩)
  rw [Sexpr.isPlain, Bool.not_eq_true', List.contains_eq_mem, decide_eq_false_iff_not]
  intro special
  simp only [List.mem_cons, List.not_mem_nil, or_false] at special
  rcases special with rfl | rfl | rfl | rfl | rfl <;> exact absurd (byte (.head _)) (by decide)

/-- A word has no character that would end an atom. -/
theorem isAtom_of_isWord {text : String} (word : Text.isWord text = true) : Sexpr.isAtom text = true := by
  unfold Text.isWord at word
  split at word
  · cases word
  · rename_i b rest bytes
    simp only [Bool.and_eq_true, List.all_eq_true] at word
    refine isAtom_of_isWordByte (by simp [bytes]) ?_
    rw [bytes]
    exact List.forall_mem_cons.mpr ⟨by rw [Byte.isWordByte, word.1, Bool.true_or], word.2⟩

/-- The digits of a number are an atom. -/
theorem isAtom_decimal {value : Int64} (positive : ¬ value < 0) :
    Sexpr.isAtom (Text.decimal value) = true := by
  obtain ⟨nonempty, digits⟩ := Text.repr_digits value.toInt.natAbs
  rw [Text.decimal, if_neg positive]
  exact isAtom_of_isWordByte nonempty fun b member => by rw [Byte.isWordByte, digits b member, Bool.or_true]

/-- No string in the tree has a backquote, which would end it in the dump. -/
def NoBackquote (t : Tree) : Prop :=
  t.Throughout fun x => ∀ content, x = .string content → '`' ∉ content.toList

theorem isReadable_tagged {tag : Tag} {items : List Sexpr} (whole : tag ≠ .missing)
    (readable : ∀ x ∈ items, x.isReadable = true) : (tagged tag items).isReadable = true := by
  rw [tagged, Sexpr.isReadable, Sexpr.isReadable, Tag.isAtom_word whole, Sexpr.areReadable_iff.mpr readable]
  rfl

/-- A labelled list can be read back if its items can. -/
theorem isReadable_grouped {label : String} (atom : Sexpr.isAtom label = true) {xs : List Sexpr}
    (readable : ∀ x ∈ xs, x.isReadable = true) : ∀ x ∈ grouped label xs, x.isReadable = true := by
  cases xs with
  | nil => exact readable
  | cons x xs =>
      obtain ⟨first, others⟩ := List.forall_mem_cons.mp readable
      simp [grouped, Sexpr.isReadable, atom, first, Sexpr.areReadable_iff.mpr others]

/-- Shapes in a row can be read back if each of them can. -/
theorem isReadable_shapes {ts : List Tree} (readable : ∀ t ∈ ts, t.shape.isReadable = true) :
    ∀ x ∈ shapes ts, x.isReadable = true := by
  rw [shapes_eq_map]
  exact List.forall_mem_map.mpr readable

theorem isReadable_shapeElse {body? : Option Tree}
    (readable : ∀ t ∈ body?.toList, t.shape.isReadable = true) :
    ∀ x ∈ shapeElse body?, x.isReadable = true := by
  cases body? with
  | none => exact fun x member => by cases member
  | some body =>
      have inner := readable body (.head _)
      have word : Sexpr.isAtom "else" = true := by decide
      simp [shapeElse, Sexpr.isReadable, Sexpr.areReadable, word, inner]

/-- The shape of a tree can be told from its text. -/
theorem isReadable_shape {t : Tree} : ∀ {role : Role}, Fits role t → t.NoBackquote →
    t.shape.isReadable = true := by
  induction t using inductionOnParts with
  | step t ih =>
      intro role fits plain
      obtain ⟨here, below⟩ := throughout_iff.mp plain
      have complete := fits.isComplete
      have parts : ∀ r ∈ t.roles, r.2.shape.isReadable = true := fun r member =>
        ih r.2 (List.mem_map_of_mem member) (fits.parts r member) (below _ (List.mem_map_of_mem member))
      cases t with
      | missing => cases complete
      | empty | jump => exact isReadable_tagged (by simp) (by simp)
      | name text =>
          exact isReadable_tagged (by simp) (by simp [Sexpr.isReadable, isAtom_of_isWord complete])
      | number value =>
          have atom := isAtom_decimal (not_lt_zero_of_isComplete complete)
          exact isReadable_tagged (by simp) (by simp [Sexpr.isReadable, atom])
      | bool value =>
          exact isReadable_tagged (by simp) (by cases value <;> decide)
      | string content =>
          exact isReadable_tagged (by simp) (by simp [Sexpr.isReadable, here content rfl])
      | sequence ts | array ts | dictionary ts =>
          simp only [roles, List.forall_mem_map] at parts
          exact isReadable_tagged (by simp) (isReadable_shapes parts)
      | clause a b | keywordArg a b | keyValue a b =>
          simp only [roles, List.forall_mem_cons] at parts
          simp [shape, Sexpr.isReadable, Sexpr.areReadable, parts]
      | unary op operand =>
          simp only [roles, List.forall_mem_cons] at parts
          refine isReadable_tagged (by simp) ?_
          cases op <;> simp [Sexpr.isReadable, parts] <;> decide
      | conditional clauses otherwise =>
          simp only [roles, List.forall_mem_append, List.forall_mem_map] at parts
          exact isReadable_tagged (by simp)
            (List.forall_mem_append.mpr ⟨isReadable_shapes parts.1, isReadable_shapeElse parts.2⟩)
      | foreach vars iterable body =>
          simp only [roles, List.forall_mem_append, List.forall_mem_map, List.forall_mem_cons] at parts
          exact isReadable_tagged (by simp) (List.forall_mem_append.mpr
            ⟨isReadable_grouped (by decide) (isReadable_shapes parts.1), by simp [parts]⟩)
      | application callee args kwargs =>
          simp only [roles, List.cons_append, List.forall_mem_cons, List.forall_mem_append,
            List.forall_mem_map] at parts
          obtain ⟨first, positional, keyword⟩ := parts
          exact isReadable_tagged (by simp) (List.forall_mem_cons.mpr ⟨first, List.forall_mem_append.mpr
            ⟨isReadable_grouped (by decide) (isReadable_shapes positional),
              isReadable_grouped (by decide) (isReadable_shapes keyword)⟩⟩)
      | _ =>
          simp only [roles, List.forall_mem_cons] at parts
          exact isReadable_tagged (by simp) (by simp [parts])

/-- No two trees in one role have one dump, as long as their strings have no backquotes. -/
theorem sexpr_injective {role : Role} {t u : Tree} (fits : Fits role t) (fits' : Fits role u)
    (plain : t.NoBackquote) (plain' : u.NoBackquote) (same : t.sexpr = u.sexpr) : t = u := by
  apply shape_injective fits fits'
  apply Sexpr.chars_injective (isReadable_shape fits plain) (isReadable_shape fits' plain')
  rw [← toList_sexpr, ← toList_sexpr, same]

end Tree

/-!
### Programs that are read
-/

open BuildScript.Tree

/-- Every program that is read has a dump, which is that of its tree. -/
theorem sexpr?_of_parse {source : String} {maxNodes : Option Nat} {ast : Ast}
    (parsed : parse source maxNodes = .ok ast) : ast.sexpr? = some ast.tree.sexpr := by
  obtain ⟨t, fits, -, tree⟩ := exists_tree_of_parse parsed
  have whole : ast.tree.isWhole = true := isWhole_of_isProper _ (tree ▸ fits.isProper)
  exact if_pos whole

/-- Two programs that are read without a limit, none of whose strings has a backquote, have dumps, and these
    are the same exactly if the programs are the same as a whole. -/
theorem sexpr_eq_iff {source other : String} {a b : Ast} (first : parse source none = .ok a)
    (second : parse other none = .ok b)
    (plain : ∀ content, (Tree.string content).OccursIn a.tree → '`' ∉ content.toList)
    (plain' : ∀ content, (Tree.string content).OccursIn b.tree → '`' ∉ content.toList) :
    ∃ s t, a.sexpr? = some s ∧ b.sexpr? = some t ∧ (s = t ↔ a = b) := by
  refine ⟨_, _, sexpr?_of_parse first, sexpr?_of_parse second, fun same => ?_, fun same => by rw [same]⟩
  obtain ⟨t, fits, shown, rfl⟩ := exists_tree_of_parse first
  obtain ⟨u, fits', shown', rfl⟩ := exists_tree_of_parse second
  have trees := sexpr_injective fits fits' (fun x occurs content same => plain content (same ▸ occurs))
    (fun x occurs content same => plain' content (same ▸ occurs)) same
  rw [shown, shown', trees]

/-- A string is not a name, though its content looks like the dump of one. -/
theorem sexpr_eq_iff_string : ∃ a b, parse "'(id x)'" none = .ok a ∧ parse "x" none = .ok b ∧
    ∃ s t, a.sexpr? = some s ∧ b.sexpr? = some t ∧ (s = t ↔ a = b) := by
  have read : readTree none "'(id x)'" = .ok (.sequence [.string "(id x)"]) := by
    cbv
  have read' : readTree none "x" = .ok (.sequence [.name "x"]) := rfl
  have parsed := parse_eq_ok.mpr ⟨_, read, rfl⟩
  have parsed' := parse_eq_ok.mpr ⟨_, read', rfl⟩
  refine ⟨_, _, parsed, parsed', sexpr_eq_iff parsed parsed' ?_ ?_⟩
  · rw [tree_toAst rfl none]
    rintro content (_ | ⟨member, occurs⟩)
    obtain rfl := List.mem_singleton.mp member
    obtain _ | ⟨inner, -⟩ := occurs
    · decide
    · cases inner
  · rw [tree_toAst rfl none]
    rintro content (_ | ⟨member, occurs⟩)
    obtain rfl := List.mem_singleton.mp member
    obtain _ | ⟨inner, -⟩ := occurs
    cases inner

end BuildScript
