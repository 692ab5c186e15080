/-
Module: BuildScript.Proofs.Dump.Shape
Layer: proofs about dumps
Purpose: The parenthesised expression whose text shows the shape of a tree, and the tree that it is the shape
  of. The first atom of a list tells the construct; clauses, keyword arguments and entries are bare pairs,
  which only their place tells apart.
Main exports: Tree.Tag, Tree.shape, Tree.toList_sexpr
-/
import BuildScript.Proofs.Dump.Sexpr
import BuildScript.Proofs.Tree.Schema

namespace BuildScript

namespace Tree

/-!
### Tags
-/

/-- What the first atom in the shape of a construct tells of it. -/
inductive Tag where
  | empty
  | sequence
  | assignment (op : Assignment)
  | conditional
  | foreach
  | jump (kind : Jump)
  | unary
  | logical (op : Connective)
  | ternary
  | arithmetic (op : Arithmetic)
  | relational (op : Comparison)
  | member
  | index
  | application
  | name
  | bool
  | number
  | string
  | array
  | dictionary
  | missing
deriving DecidableEq, Repr, Inhabited

namespace Tag

/-- The atom itself. -/
def word : Tag → String
  | .empty => "empty"
  | .sequence => "seq"
  | .assignment op => "assign" ++ op.stem
  | .conditional => "cond"
  | .foreach => "foreach"
  | .jump kind => kind.symbol
  | .unary => "unary"
  | .logical op => op.symbol
  | .ternary => "ternary"
  | .arithmetic op => op.symbol
  | .relational op => relWord op
  | .member => "member"
  | .index => "index"
  | .application => "app"
  | .name => "id"
  | .bool => "bool"
  | .number => "num"
  | .string => "str"
  | .array => "array"
  | .dictionary => "dict"
  | .missing => ""

/-- Every tag. -/
def all : List Tag :=
  [.empty, .sequence, .conditional, .foreach, .unary, .ternary, .member, .index, .application, .name, .bool,
    .number, .string, .array, .dictionary, .missing, .jump .stop, .jump .skip, .logical .and, .logical .or,
    .arithmetic .add, .arithmetic .sub, .arithmetic .mul, .arithmetic .div, .arithmetic .mod,
    .assignment .assign, .assignment .add, .assignment .sub, .assignment .mul, .assignment .div,
    .assignment .mod, .relational .eq, .relational .ne, .relational .lt, .relational .le, .relational .gt,
    .relational .ge, .relational .member, .relational .notMember]

/-- The tag with the given atom. -/
def ofWord? (word : String) : Option Tag :=
  all.find? (·.word == word)

/-- No two tags are written by the same atom. -/
theorem ofWord?_word (tag : Tag) : ofWord? tag.word = some tag := by
  cases tag with
  | assignment op => cases op <;> decide
  | jump kind => cases kind <;> decide
  | logical op => cases op <;> decide
  | arithmetic op => cases op <;> decide
  | relational op => cases op <;> decide
  | _ => decide

/-- The tags have no characters in them that would end an atom. -/
theorem isAtom_word {tag : Tag} (whole : tag ≠ .missing) : Sexpr.isAtom tag.word = true := by
  cases tag with
  | assignment op => cases op <;> decide
  | jump kind => cases kind <;> decide
  | logical op => cases op <;> decide
  | arithmetic op => cases op <;> decide
  | relational op => cases op <;> decide
  | missing => contradiction
  | _ => decide

end Tag

/-!
### Shapes
-/

/-- A list with a tag in front. -/
def tagged (tag : Tag) (items : List Sexpr) : Sexpr :=
  .list (.atom tag.word) items

/-- Expressions in a list with a label, left out altogether when there are none. -/
def grouped (label : String) : List Sexpr → List Sexpr
  | [] => []
  | x :: xs => [.labelled label (.list x xs)]

mutual
/-- The shape of the tree. -/
def shape : Tree → Sexpr
  | .empty => tagged .empty []
  | .sequence statements => tagged .sequence (shapes statements)
  | .assignment op target value => tagged (.assignment op) [target.shape, value.shape]
  | .conditional clauses otherwise => tagged .conditional (shapes clauses ++ shapeElse otherwise)
  | .clause predicate body => .list predicate.shape [body.shape]
  | .foreach vars iterable body =>
      tagged .foreach (grouped "ids" (shapes vars) ++ [iterable.shape, body.shape])
  | .jump kind => tagged (.jump kind) []
  | .unary op operand => tagged .unary [.atom (unaryWord op), operand.shape]
  | .logical op lhs rhs => tagged (.logical op) [lhs.shape, rhs.shape]
  | .ternary condition yes no => tagged .ternary [condition.shape, yes.shape, no.shape]
  | .arithmetic op lhs rhs => tagged (.arithmetic op) [lhs.shape, rhs.shape]
  | .relational op lhs rhs => tagged (.relational op) [lhs.shape, rhs.shape]
  | .member object field => tagged .member [object.shape, field.shape]
  | .index target position => tagged .index [target.shape, position.shape]
  | .application callee args kwargs =>
      tagged .application
        (callee.shape :: (grouped "args" (shapes args) ++ grouped "kw-args" (shapes kwargs)))
  | .keywordArg key value => .list key.shape [value.shape]
  | .name text => tagged .name [.atom text]
  | .bool value => tagged .bool [.atom (if value then "true" else "false")]
  | .number value => tagged .number [.atom (Text.decimal value)]
  | .string content => tagged .string [.quoted content]
  | .array items => tagged .array (shapes items)
  | .dictionary entries => tagged .dictionary (shapes entries)
  | .keyValue key value => .list key.shape [value.shape]
  | .missing _ => tagged .missing []

/-- The shape of each of the trees. -/
def shapes : List Tree → List Sexpr
  | [] => []
  | t :: ts => t.shape :: shapes ts

/-- The shape of the body of an `else`. -/
def shapeElse : Option Tree → List Sexpr
  | none => []
  | some body => [.list (.atom "else") [body.shape]]
end

/-!
### Their texts
-/

@[simp]
theorem toList_spaced_nil : (spaced []).toList = [] := by
  simp [spaced]

@[simp]
theorem toList_spaced_cons (text : String) (texts : List String) :
    (spaced (text :: texts)).toList = ' ' :: (text.toList ++ (spaced texts).toList) := by
  simp [spaced]

/-- Spaces between texts are spaces in front of all but the first. -/
theorem toList_intercalate_cons (text : String) (texts : List String) :
    (" ".intercalate (text :: texts)).toList = text.toList ++ (spaced texts).toList := by
  induction texts generalizing text with
  | nil => simp
  | cons other texts ih =>
      rw [String.intercalate_cons_cons, String.toList_append, ih]
      simp

section

variable {texts : List String} {xs : List Sexpr}

/-- The texts of the items of a list, each with a space in front. -/
theorem toList_spaced (same : texts.map String.toList = xs.map Sexpr.chars) :
    (spaced texts).toList = Sexpr.charsAll xs := by
  induction texts generalizing xs with
  | nil =>
      cases xs with
      | nil => simp [Sexpr.charsAll]
      | cons => cases same
  | cons text texts ih =>
      cases xs with
      | nil => cases same
      | cons x xs =>
          obtain ⟨first, others⟩ := List.cons.inj same
          rw [toList_spaced_cons, Sexpr.charsAll, first, ih others]

/-- A label is written together with its list, or neither is. -/
theorem toList_labelled (label : String) (same : texts.map String.toList = xs.map Sexpr.chars) :
    (labelled label texts).toList = Sexpr.charsAll (grouped label xs) := by
  cases texts with
  | nil =>
      cases xs with
      | nil => simp [labelled, grouped, Sexpr.charsAll]
      | cons => cases same
  | cons text texts =>
      cases xs with
      | nil => cases same
      | cons x xs =>
          obtain ⟨first, others⟩ := List.cons.inj same
          have inner := toList_intercalate_cons text texts
          rw [first, toList_spaced others] at inner
          simp [labelled, grouped, Sexpr.charsAll, Sexpr.chars, inner, -String.toList_intercalate]

end

/-- Lists of expressions are written one behind the other. -/
theorem charsAll_append (xs ys : List Sexpr) :
    Sexpr.charsAll (xs ++ ys) = Sexpr.charsAll xs ++ Sexpr.charsAll ys := by
  induction xs with
  | nil => rfl
  | cons x xs ih => simp [Sexpr.charsAll, ih]

mutual

/-- The text that shows the shape of a tree. -/
theorem toList_sexpr : ∀ t : Tree, t.sexpr.toList = t.shape.chars
  | .empty | .jump _ | .name _ | .number _ | .string _ | .missing _ => by
      simp [sexpr, shape, tagged, Tag.word, Sexpr.chars, Sexpr.charsAll]
  | .bool value => by
      cases value <;> simp [sexpr, shape, tagged, Tag.word, Sexpr.chars, Sexpr.charsAll]
  | .sequence ts | .array ts | .dictionary ts => by
      simp [sexpr, shape, tagged, Tag.word, Sexpr.chars, toList_spaced (toList_sexprs ts)]
  | .conditional clauses otherwise => by
      simp [sexpr, shape, tagged, Tag.word, Sexpr.chars, toList_spaced (toList_sexprs clauses),
        toList_sexprElse otherwise, charsAll_append]
  | .foreach vars iterable body => by
      simp [sexpr, shape, tagged, Tag.word, Sexpr.chars, Sexpr.charsAll,
        toList_labelled "ids" (toList_sexprs vars), toList_sexpr iterable, toList_sexpr body, charsAll_append]
  | .unary _ operand => by
      simp [sexpr, shape, tagged, Tag.word, Sexpr.chars, Sexpr.charsAll, toList_sexpr operand]
  | .ternary condition yes no => by
      simp [sexpr, shape, tagged, Tag.word, Sexpr.chars, Sexpr.charsAll, toList_sexpr condition,
        toList_sexpr yes, toList_sexpr no]
  | .application callee args kwargs => by
      simp [sexpr, shape, tagged, Tag.word, Sexpr.chars, Sexpr.charsAll, toList_sexpr callee,
        toList_labelled "args" (toList_sexprs args), toList_labelled "kw-args" (toList_sexprs kwargs),
        charsAll_append]
  | .assignment _ a b | .logical _ a b | .arithmetic _ a b | .relational _ a b | .member a b | .index a b
  | .clause a b | .keywordArg a b | .keyValue a b => by
      simp [sexpr, shape, tagged, Tag.word, Sexpr.chars, Sexpr.charsAll, toList_sexpr a, toList_sexpr b]

theorem toList_sexprs : ∀ ts : List Tree, (sexprs ts).map String.toList = (shapes ts).map Sexpr.chars
  | [] => by simp only [sexprs, shapes, List.map_nil]
  | t :: ts => by
      simp only [sexprs, shapes, List.map_cons, toList_sexpr t, toList_sexprs ts]

/-- The text of a last branch, or none. -/
theorem toList_sexprElse : ∀ body? : Option Tree,
    (sexprElse body?).toList = Sexpr.charsAll (shapeElse body?)
  | none => by simp [sexprElse, shapeElse, Sexpr.charsAll]
  | some body => by
      simp [sexprElse, shapeElse, Sexpr.charsAll, Sexpr.chars, toList_sexpr body]

end

end Tree

end BuildScript
