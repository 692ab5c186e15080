/-
Module: BuildScript.Proofs.Dump.Sexpr
Layer: proofs about dumps
Purpose: Parenthesised expressions, whatever they stand for, and their texts. An atom ends in front of the
  first character that no atom has, a quoted text at the next quote, and a list at its own parenthesis, so
  a text is that of one expression only.
Main exports: Sexpr, Sexpr.chars, Sexpr.isReadable, Sexpr.chars_injective
-/
import Mathlib.Data.List.Basic

namespace BuildScript

/-- A parenthesised expression. -/
inductive Sexpr where
  | atom (text : String)
  | quoted (content : String)
  /-- A list has a first element. -/
  | list (head : Sexpr) (others : List Sexpr)
  /-- An expression with a label in front of it. -/
  | labelled (label : String) (inner : Sexpr)
deriving Inhabited

namespace Sexpr

mutual
/-- The text of the expression, as characters. -/
def chars : Sexpr → List Char
  | .atom text => text.toList
  | .quoted content => '`' :: (content.toList ++ ['`'])
  | .list head others => '(' :: (head.chars ++ (charsAll others ++ [')']))
  | .labelled label inner => label.toList ++ ':' :: inner.chars

/-- The texts of the expressions with a space in front of each. -/
def charsAll : List Sexpr → List Char
  | [] => []
  | x :: xs => ' ' :: (x.chars ++ charsAll xs)
end

/-- Whether an atom or a label may have the character. -/
def isPlain (c : Char) : Bool :=
  !(['(', ')', ' ', '`', ':'].contains c)

/-- Whether the text may be an atom or a label. -/
def isAtom (text : String) : Bool :=
  !text.toList.isEmpty && text.toList.all isPlain

mutual
/-- Whether every atom, label and quoted text can be told from what stands behind it. -/
def isReadable : Sexpr → Bool
  | .atom text => isAtom text
  | .quoted content => !content.toList.contains '`'
  | .list head others => head.isReadable && areReadable others
  | .labelled label inner => isAtom label && inner.isReadable

/-- The same for each of the expressions. -/
def areReadable : List Sexpr → Bool
  | [] => true
  | x :: xs => x.isReadable && areReadable xs
end

/-- Expressions can be read back when each of them can. -/
theorem areReadable_iff {xs : List Sexpr} : areReadable xs = true ↔ ∀ x ∈ xs, x.isReadable = true := by
  induction xs with
  | nil => simp [areReadable]
  | cons x xs ih => simp [areReadable, ih]

/-!
### Where a part ends
-/

/-- Two runs of characters of one sort are the same if neither goes on behind its end. -/
theorem run_cancel {p : Char → Bool} {a b r r' : List Char} (all : ∀ c ∈ a, p c = true)
    (all' : ∀ c ∈ b, p c = true) (ends : ∀ c ∈ r.head?, p c = false) (ends' : ∀ c ∈ r'.head?, p c = false)
    (same : a ++ r = b ++ r') : a = b ∧ r = r' := by
  induction a generalizing b with
  | nil =>
      cases b with
      | nil => exact ⟨rfl, same⟩
      | cons c b =>
          have other := ends c (by rw [show r = c :: (b ++ r') from same]; rfl)
          rw [all' c List.mem_cons_self] at other
          cases other
  | cons c a ih =>
      cases b with
      | nil =>
          have other := ends' c (by rw [show r' = c :: (a ++ r) from same.symm]; rfl)
          rw [all c List.mem_cons_self] at other
          cases other
      | cons d b =>
          obtain ⟨rfl, behind⟩ := List.cons.inj same
          obtain ⟨rfl, rest⟩ := ih (fun c member => all c (List.mem_cons_of_mem _ member))
            (fun c member => all' c (List.mem_cons_of_mem _ member)) behind
          exact ⟨rfl, rest⟩

/-- An atom ends where its characters do, so equal texts begin with equal atoms. -/
theorem atom_cancel {s t : String} {r r' : List Char} (atom : isAtom s = true) (atom' : isAtom t = true)
    (ends : ∀ c ∈ r.head?, isPlain c = false) (ends' : ∀ c ∈ r'.head?, isPlain c = false)
    (same : s.toList ++ r = t.toList ++ r') : s = t ∧ r = r' := by
  simp only [isAtom, Bool.and_eq_true, List.all_eq_true] at atom atom'
  obtain ⟨chars, rest⟩ := run_cancel atom.2 atom'.2 ends ends' same
  exact ⟨String.toList_inj.mp chars, rest⟩

/-- A quoted text without quotes in it ends at the first quote. -/
theorem quoted_cancel {s t : String} {r r' : List Char} (closed : (quoted s).isReadable = true)
    (closed' : (quoted t).isReadable = true) (same : s.toList ++ '`' :: r = t.toList ++ '`' :: r') :
    s = t ∧ r = r' := by
  have other {s : String} (closed : (quoted s).isReadable = true) :
      ∀ c ∈ s.toList, (c != '`') = true := by
    intro c member
    simp only [isReadable, Bool.not_eq_true', List.contains_eq_mem, decide_eq_false_iff_not] at closed
    rw [bne_iff_ne]
    rintro rfl
    exact closed member
  obtain ⟨chars, rest⟩ := run_cancel (other closed) (other closed') (by simp) (by simp) same
  exact ⟨String.toList_inj.mp chars, List.tail_eq_of_cons_eq rest⟩

/-- What may stand behind an element of a list: the next element, the end of the list or of the text. -/
def Ends (rest : List Char) : Prop :=
  ∀ c ∈ rest.head?, c = ' ' ∨ c = ')'

/-- What ends an expression is no character of an atom. -/
theorem Ends.not_plain {rest : List Char} (ends : Ends rest) : ∀ c ∈ rest.head?, isPlain c = false := by
  intro c member
  rcases ends c member with rfl | rfl <;> rfl

/-- In a list an item ends at a blank or at the closing parenthesis. -/
theorem ends_charsAll (xs : List Sexpr) (rest : List Char) : Ends (charsAll xs ++ ')' :: rest) := by
  cases xs <;> simp [Ends, charsAll]

/-- The characters that the text of an expression may begin with, by its kind. -/
def begins : Sexpr → Char → Bool
  | .atom _, c | .labelled _ _, c => isPlain c
  | .quoted _, c => c == '`'
  | .list _ _, c => c == '('

/-- Its first character tells whether an expression is an atom, a list or quoted. -/
theorem exists_begins {x : Sexpr} (readable : x.isReadable = true) :
    ∃ c rest, x.chars = c :: rest ∧ x.begins c = true := by
  have plain {s : String} (atom : isAtom s = true) : ∃ c rest, s.toList = c :: rest ∧ isPlain c = true := by
    simp only [isAtom, Bool.and_eq_true, List.all_eq_true] at atom
    cases chars : s.toList with
    | nil => simp [chars] at atom
    | cons c rest => exact ⟨c, rest, rfl, atom.2 c (by simp [chars])⟩
  cases x with
  | atom s => exact plain readable
  | quoted s => exact ⟨'`', _, by rw [chars], rfl⟩
  | list head others => exact ⟨'(', _, by rw [chars], rfl⟩
  | labelled label inner =>
      simp only [isReadable, Bool.and_eq_true] at readable
      obtain ⟨c, rest, first, begins⟩ := plain readable.1
      exact ⟨c, _, by rw [chars, first, List.cons_append], begins⟩

/-- Expressions whose texts begin alike are of one kind. -/
theorem exists_begins_both {x y : Sexpr} {r r' : List Char} (readable : x.isReadable = true)
    (readable' : y.isReadable = true) (same : x.chars ++ r = y.chars ++ r') :
    ∃ c, x.begins c = true ∧ y.begins c = true := by
  obtain ⟨c, rest, first, begins⟩ := exists_begins readable
  obtain ⟨d, rest', first', begins'⟩ := exists_begins readable'
  rw [first, first', List.cons_append, List.cons_append] at same
  obtain ⟨rfl, -⟩ := List.cons.inj same
  exact ⟨c, begins, begins'⟩

/-!
### One reading only
-/

mutual

/-- An expression is told from its text, and so is where the text ends. -/
theorem chars_cancel : ∀ (x y : Sexpr) {r r' : List Char}, x.isReadable = true → y.isReadable = true →
    Ends r → Ends r' → x.chars ++ r = y.chars ++ r' → x = y ∧ r = r'
  | .atom s, .atom t, _, _, readable, readable', ends, ends', same => by
      obtain ⟨rfl, rest⟩ := atom_cancel readable readable' ends.not_plain ends'.not_plain same
      exact ⟨rfl, rest⟩
  | .quoted s, .quoted t, _, _, readable, readable', _, _, same => by
      simp only [chars, List.cons_append, List.append_assoc, List.nil_append, List.cons.injEq,
        true_and] at same
      obtain ⟨rfl, rest⟩ := quoted_cancel readable readable' same
      exact ⟨rfl, rest⟩
  | .list head others, .list head' others', r, r', readable, readable', _, _, same => by
      simp only [isReadable, Bool.and_eq_true] at readable readable'
      simp only [chars, List.cons_append, List.append_assoc, List.nil_append, List.cons.injEq,
        true_and] at same
      obtain ⟨rfl, behind⟩ := chars_cancel head head' readable.1 readable'.1 (ends_charsAll _ _)
        (ends_charsAll _ _) same
      obtain ⟨rfl, rest⟩ := charsAll_cancel others others' readable.2 readable'.2 behind
      exact ⟨rfl, rest⟩
  | .labelled label inner, .labelled label' inner', _, _, readable, readable', ends, ends', same => by
      simp only [isReadable, Bool.and_eq_true] at readable readable'
      simp only [chars, List.append_assoc] at same
      obtain ⟨rfl, behind⟩ :=
        atom_cancel readable.1 readable'.1 (by simp [isPlain]) (by simp [isPlain]) same
      obtain ⟨rfl, rest⟩ := chars_cancel inner inner' readable.2 readable'.2 ends ends'
        (List.tail_eq_of_cons_eq behind)
      exact ⟨rfl, rest⟩
  | .atom s, .labelled label inner, _, _, readable, readable', ends, _, same => by
      simp only [isReadable, Bool.and_eq_true] at readable readable'
      simp only [chars, List.append_assoc] at same
      obtain ⟨-, rfl⟩ := atom_cancel readable readable'.1 ends.not_plain (by simp [isPlain]) same
      exact absurd (ends ':' rfl) (by decide)
  | .labelled label inner, .atom t, _, _, readable, readable', _, ends, same => by
      simp only [isReadable, Bool.and_eq_true] at readable readable'
      simp only [chars, List.append_assoc] at same
      obtain ⟨-, rest⟩ := atom_cancel readable.1 readable' (by simp [isPlain]) ends.not_plain same
      exact absurd (ends ':' (by rw [← rest]; rfl)) (by decide)
  -- The first character tells all other kinds apart.
  | .atom _, .quoted _, _, _, readable, readable', _, _, same
  | .atom _, .list _ _, _, _, readable, readable', _, _, same
  | .quoted _, .atom _, _, _, readable, readable', _, _, same
  | .quoted _, .list _ _, _, _, readable, readable', _, _, same
  | .quoted _, .labelled _ _, _, _, readable, readable', _, _, same
  | .list _ _, .atom _, _, _, readable, readable', _, _, same
  | .list _ _, .quoted _, _, _, readable, readable', _, _, same
  | .list _ _, .labelled _ _, _, _, readable, readable', _, _, same
  | .labelled _ _, .quoted _, _, _, readable, readable', _, _, same
  | .labelled _ _, .list _ _, _, _, readable, readable', _, _, same => by
      obtain ⟨c, begins, begins'⟩ := exists_begins_both readable readable' same
      simp_all [Sexpr.begins, isPlain]

/-- Lists with equal texts have equal items, since each item ends where the next begins. -/
theorem charsAll_cancel : ∀ (xs ys : List Sexpr) {r r' : List Char}, areReadable xs = true →
    areReadable ys = true → charsAll xs ++ ')' :: r = charsAll ys ++ ')' :: r' → xs = ys ∧ r = r'
  | [], [], _, _, _, _, same => ⟨rfl, List.tail_eq_of_cons_eq same⟩
  | [], y :: ys, _, _, _, _, same => by simp [charsAll] at same
  | x :: xs, [], _, _, _, _, same => by simp [charsAll] at same
  | x :: xs, y :: ys, r, r', readable, readable', same => by
      simp only [areReadable, Bool.and_eq_true] at readable readable'
      simp only [charsAll, List.cons_append, List.append_assoc, List.cons.injEq, true_and] at same
      obtain ⟨rfl, behind⟩ := chars_cancel x y readable.1 readable'.1 (ends_charsAll _ _)
        (ends_charsAll _ _) same
      obtain ⟨rfl, rest⟩ := charsAll_cancel xs ys readable.2 readable'.2 behind
      exact ⟨rfl, rest⟩

end

/-- No two readable expressions have one text. -/
theorem chars_injective {x y : Sexpr} (readable : x.isReadable = true) (readable' : y.isReadable = true)
    (same : x.chars = y.chars) : x = y :=
  (chars_cancel x y readable readable' (by simp [Ends]) (by simp [Ends])
    (congrArg (· ++ []) same)).1

end Sexpr

end BuildScript
