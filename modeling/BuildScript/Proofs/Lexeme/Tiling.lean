/-
Module: BuildScript.Proofs.Lexeme.Tiling
Layer: proofs about lexemes
Purpose: Lexemes tile a source. Scanned from any byte on, inside a character or not, the rest of the source
  is cut into lexemes without a gap, and the scan then stays at the end. Scanned from an edge on, it
  never comes to stand inside a character.
Main exports: Lexeme.total, Scans.split, Scans.edge, Tiling, exists_tiling
-/
import BuildScript.Proofs.Token.Lossless

namespace BuildScript

/-- How many bytes lexemes have. -/
def Lexeme.total : List Lexeme → Nat
  | [] => 0
  | lexeme :: lexemes => lexeme.length + total lexemes

/-- An invalid character that begins at an edge is one whole character. -/
theorem Lexeme.Shape.eq_singleton {source : String} {before w rest : List UInt8}
    (shape : Shape .invalidChar w rest.head?) (content : Text.bytes source = before ++ (w ++ rest))
    (edge : Text.Edge source before.length) : ∃ c, w = Text.bytes (String.singleton c) := by
  generalize following : rest.head? = next at shape
  cases shape with
  | @invalidChar b w _ _ width =>
      obtain ⟨front, c, back, rfl, rfl, whole⟩ := Text.exists_char content edge
      rw [String.append_assoc, Text.bytes_append, Text.bytes_append] at content
      have behind := List.append_cancel_left content
      rcases width with complete | ⟨rfl, short⟩
      · exact ⟨c, (List.append_inj_left behind (whole.trans complete.symm)).symm⟩
      -- What is cut off by the end of the source would be no character.
      · obtain rfl := List.head?_eq_none_iff.mp following
        have length := congrArg List.length behind
        simp only [List.length_append, List.length_cons, List.length_nil, whole] at length
        omega

/-!
### One call after another
-/

namespace Cursor

/-- The cursor behind `n` scans. -/
def behind : (n : Nat) → Cursor → Cursor
  | 0, c => c
  | n + 1, c => c.scan.2.behind n

theorem behind_add (c : Cursor) (m n : Nat) : c.behind (m + n) = (c.behind m).behind n := by
  induction m generalizing c with
  | zero => rw [Nat.zero_add]; rfl
  | succ m ih =>
      rw [Nat.succ_add]
      exact ih c.scan.2

/-- A scan that stays where it is does so forever. -/
theorem behind_of_stays {c : Cursor} (stays : c.scan.2 = c) (n : Nat) : c.behind n = c := by
  induction n with
  | zero => rfl
  | succ n ih => rw [behind, stays, ih]

theorem Between.scan_end {c : Cursor} {before : List UInt8} (h : c.Between before []) :
    c.scan = (⟨.finish, 0⟩, c) :=
  have shape : Lexeme.Shape .finish [] ([] : List UInt8).head? := .finish
  shape.scan h

variable {source : String} {c : Cursor} {before bytes : List UInt8} {passed others : List Lexeme}

/-- A zero byte inside the source is a lexeme by itself. -/
theorem Between.scan_zero (h : c.Between before bytes) (content : Text.bytes source = before ++ bytes)
    (zero : (Text.bytes source)[c.position]? = some 0) : c.scan = (⟨.invalidChar, 1⟩, c.step) := by
  rw [h.position, content, List.getElem?_append_right (Nat.le_refl _), Nat.sub_self,
    ← List.head?_eq_getElem?] at zero
  obtain ⟨rest, rfl⟩ := List.head?_eq_some_iff.mp zero
  have shape : Lexeme.Shape .invalidChar [0] rest.head? := .invalidChar (by decide) (.inl rfl)
  exact shape.scan h

/-- An invalid character that is scanned at an edge is one character of the source. -/
theorem Between.scan_invalidChar (h : c.Between before bytes) (content : Text.bytes source = before ++ bytes)
    (edge : Text.Edge source c.position) (invalid : c.scan.1.kind = .invalidChar) :
    ∃ found, Text.slice source c.position c.scan.2.position = Text.bytes (String.singleton found) := by
  obtain ⟨kind, w, rest, rfl, shape⟩ := Lexeme.exists_shape bytes
  rw [shape.scan h] at invalid ⊢
  obtain rfl : kind = .invalidChar := invalid
  rw [h.position] at edge
  obtain ⟨found, rfl⟩ := shape.eq_singleton content edge
  refine ⟨found, ?_⟩
  rw [Cursor.forward, h.position, Text.slice_eq content]

/-- The first lexemes of a scan are the first bytes in front of the cursor, and the scan goes on behind
    them. -/
theorem Scans.split (scans : c.Scans (passed ++ others)) (h : c.Between before bytes) :
    ∃ w rest, bytes = w ++ rest ∧ w.length = Lexeme.total passed ∧
      (c.behind passed.length).Between (before ++ w) rest ∧ (c.behind passed.length).Scans others := by
  induction passed generalizing c before bytes with
  | nil => exact ⟨[], bytes, rfl, rfl, by rwa [List.append_nil], scans⟩
  | cons lexeme passed ih =>
      obtain ⟨kind, u, more, rfl, shape, -, rfl, later⟩ := scans.exists_shape h
      obtain ⟨w, rest, rfl, length, between, later⟩ := ih later h.forward
      have next : c.behind (passed.length + 1) = (c.forward u.length).behind passed.length := by
        rw [behind, shape.scan h]
      refine ⟨u ++ w, rest, (List.append_assoc u w rest).symm, ?_, ?_, ?_⟩
      · rw [List.length_append, length, Lexeme.total]
      · rw [List.length_cons, next, ← List.append_assoc]
        exact between
      · rwa [List.length_cons, next]

/-- A lexeme of a scan ends at an edge. -/
theorem Scans.edge (scans : c.Scans (passed ++ others)) (h : c.Between before bytes)
    (content : Text.bytes source = before ++ bytes) (edge : Text.Edge source before.length) :
    Text.Edge source (before.length + Lexeme.total passed) := by
  induction passed generalizing c before bytes with
  | nil => exact edge
  | cons lexeme passed ih =>
      obtain ⟨kind, w, rest, rfl, shape, -, rfl, more⟩ := scans.exists_shape h
      rw [Lexeme.total, ← Nat.add_assoc, ← List.length_append]
      apply ih more h.forward (by rw [content, List.append_assoc])
      rw [List.length_append]
      exact shape.edge_behind content edge

/-- Behind any number of scans the cursor stands behind as many lexemes, or at the end. -/
theorem Scans.standing {lexemes : List Lexeme} (scans : c.Scans lexemes) (h : c.Between before bytes)
    (n : Nat) : ∃ w rest, bytes = w ++ rest ∧ w.length = Lexeme.total (lexemes.take n) ∧
      (c.behind n).Between (before ++ w) rest ∧ (c.behind n).Scans (lexemes.drop n) := by
  rw [← List.take_append_drop n lexemes] at scans
  obtain ⟨w, rest, rfl, length, between, others⟩ := scans.split h
  by_cases inside : n ≤ lexemes.length
  · rw [List.length_take, Nat.min_eq_left inside] at between others
    exact ⟨w, rest, rfl, length, between, others⟩
  · have beyond : lexemes.length ≤ n := Nat.le_of_not_le inside
    rw [List.drop_eq_nil_of_le beyond] at others
    obtain rfl := others.eq_nil between
    rw [List.take_of_length_le beyond] at between others
    obtain ⟨more, rfl⟩ := Nat.exists_eq_add_of_le beyond
    have stays : (c.behind lexemes.length).scan.2 = c.behind lexemes.length := by rw [between.scan_end]
    rw [behind_add, behind_of_stays stays, List.drop_eq_nil_of_le beyond]
    exact ⟨w, [], rfl, length, between, others⟩

/-- The lexemes of a scan have bytes, and none of them is the end. -/
theorem Scans.proper {lexemes : List Lexeme} (scans : c.Scans lexemes) (h : c.Between before bytes) :
    ∀ lexeme ∈ lexemes, lexeme.kind ≠ .finish ∧ 0 < lexeme.length := by
  induction lexemes generalizing c before bytes with
  | nil => simp
  | cons lexeme lexemes ih =>
      obtain ⟨kind, w, rest, rfl, shape, other, rfl, more⟩ := scans.exists_shape h
      have nonempty := List.length_pos_iff.mpr (shape.ne_nil other)
      exact List.forall_mem_cons.mpr ⟨⟨other, nonempty⟩, ih more h.forward⟩

end Cursor

/-!
### Sources
-/

/-- The cursor behind `n` scans of the source from byte `start` on. -/
def Text.scanned (source : String) (start n : Nat) : Cursor :=
  ((Buffer.ofSource source).cursorFrom start).behind n

theorem Cursor.between_cursorFrom (source : String) (start : Nat) :
    ((Buffer.ofSource source).cursorFrom start).Between ((Text.bytes source).take start)
      ((Text.bytes source).drop start) where
  holds := by
    rw [List.take_append_drop]
    exact Buffer.holds_ofSource source
  position := by
    have length := (Buffer.holds_ofSource source).length
    rw [Buffer.cursorFrom, length, List.length_take]

/-- Calls that scan the source from byte `start` on yield the lexemes, and then the end forever. -/
structure Tiling (source : String) (start : Nat) (lexemes : List Lexeme) : Prop where
  yields : ∀ n < lexemes.length, lexemes[n]? = some (Text.scanned source start n).scan.1
  proper : ∀ lexeme ∈ lexemes, lexeme.kind ≠ .finish ∧ 0 < lexeme.length
  total : start + Lexeme.total lexemes = (Text.bytes source).length
  placed : ∀ n, (Text.scanned source start n).position = start + Lexeme.total (lexemes.take n)
  ends : ∀ n, lexemes.length ≤ n →
    (Text.scanned source start n).scan = (⟨.finish, 0⟩, Text.scanned source start n)
  /-- A zero byte is no end. -/
  zero : ∀ n, (Text.bytes source)[(Text.scanned source start n).position]? = some 0 →
    (Text.scanned source start n).scan = (⟨.invalidChar, 1⟩, (Text.scanned source start n).step)
  edges : Text.Edge source start → ∀ n, Text.Edge source (Text.scanned source start n).position
  characters : Text.Edge source start → ∀ n, (Text.scanned source start n).scan.1.kind = .invalidChar →
    ∃ c, Text.slice source (Text.scanned source start n).position
      (Text.scanned source start (n + 1)).position = Text.bytes (String.singleton c)

/-- From each of its bytes on, and from its end, a source is tiled by lexemes. -/
theorem exists_tiling (source : String) {start : Nat} (inside : start ≤ (Text.bytes source).length) :
    ∃ lexemes, Tiling source start lexemes := by
  have front := Cursor.between_cursorFrom source start
  have content : Text.bytes source = (Text.bytes source).take start ++ (Text.bytes source).drop start :=
    (List.take_append_drop start _).symm
  have place : ((Text.bytes source).take start).length = start := by
    rw [List.length_take, Nat.min_eq_left inside]
  generalize (Text.bytes source).take start = before at front content place
  generalize (Text.bytes source).drop start = bytes at front content
  obtain ⟨lexemes, scans⟩ := front.exists_scans
  have standing (n : Nat) : ∃ passed rest, Text.bytes source = passed ++ rest ∧
      passed.length = start + Lexeme.total (lexemes.take n) ∧
        (Text.scanned source start n).Between passed rest ∧
          (Text.scanned source start n).Scans (lexemes.drop n) := by
    obtain ⟨w, rest, rfl, length, here, others⟩ := scans.standing front n
    exact ⟨before ++ w, rest, by rw [content, List.append_assoc], by rw [List.length_append, place, length],
      here, others⟩
  have placed (n : Nat) : (Text.scanned source start n).position = start + Lexeme.total (lexemes.take n) := by
    obtain ⟨passed, rest, -, length, here, -⟩ := standing n
    rw [here.position, length]
  have edges (edge : Text.Edge source start) (n : Nat) :
      Text.Edge source (Text.scanned source start n).position := by
    rw [← List.take_append_drop n lexemes] at scans
    have ends := scans.edge front content (place ▸ edge)
    rwa [place, ← placed] at ends
  refine ⟨lexemes, ?yields, scans.proper front, ?total, placed, ?ends, ?zero, edges, ?characters⟩
  case yields =>
    intro n inside
    obtain ⟨passed, rest, -, -, -, others⟩ := standing n
    rw [← List.head?_drop]
    generalize found : lexemes.drop n = behind at others
    cases others with
    | finish => exact absurd inside (Nat.not_lt.mpr (List.drop_eq_nil_iff.mp found))
    | next => rfl
  case total =>
    obtain ⟨passed, rest, same, length, here, others⟩ := standing lexemes.length
    rw [List.drop_length] at others
    obtain rfl := others.eq_nil here
    rw [same, List.append_nil, length, List.take_length]
  case ends =>
    intro n beyond
    obtain ⟨passed, rest, -, -, here, others⟩ := standing n
    rw [List.drop_eq_nil_of_le beyond] at others
    obtain rfl := others.eq_nil here
    exact here.scan_end
  case zero =>
    intro n zero
    obtain ⟨passed, rest, same, -, here, -⟩ := standing n
    exact here.scan_zero same zero
  case characters =>
    intro edge n invalid
    obtain ⟨passed, rest, same, -, here, -⟩ := standing n
    have next : Text.scanned source start (n + 1) = (Text.scanned source start n).scan.2 :=
      Cursor.behind_add _ n 1
    rw [next]
    exact here.scan_invalidChar same (edges edge n) invalid

/-- A scan may begin inside a character, and it goes on behind a zero byte. -/
theorem exists_tiling_inside_character : 1 ≤ (Text.bytes "é\u0000#").length ∧
    ∃ lexemes, Tiling "é\u0000#" 1 lexemes :=
  ⟨by decide +kernel, exists_tiling _ (by decide +kernel)⟩

end BuildScript
