/-
Module: BuildScript.Proofs.Source.Character
Layer: proofs about source text
Purpose: Where the characters of a source begin and end among its bytes. An ASCII byte is a character by
  itself, so there is an edge on either side of it, and the bytes between two edges are a text.
Main exports: Text.ofBytes, Text.Edge, Text.edge_of_firstByte, Text.edge_of_ascii, Text.exists_char,
  Text.edge_behind_char, Text.add_charWidth_le, Text.bytes_ofBytes
-/
import BuildScript.Proofs.Source.Bytes

namespace BuildScript

/-!
### Characters
-/

/-- An ASCII byte is a character of one byte. -/
theorem Byte.charWidth_ascii : ∀ b : UInt8, b < 128 → charWidth b = 1 := by
  grind [charWidth]

theorem Byte.isUTF8FirstByte_of_ascii : ∀ b : UInt8, b < 128 → b.IsUTF8FirstByte :=
  forall_of_below (by decide +kernel)

/-- A byte from the middle of a character tells of no more bytes than itself. -/
theorem Byte.charWidth_of_inner : ∀ b : UInt8, ¬ b.IsUTF8FirstByte → charWidth b = 1 :=
  forall_of_below (by decide +kernel)

/-- The first byte of a longer character tells how many there are. -/
theorem Byte.charWidth_leading : ∀ b : UInt8, charWidth (b &&& 0x1f ||| 0xc0) = 2 ∧
    charWidth (b &&& 0x0f ||| 0xe0) = 3 ∧ charWidth (b &&& 0x07 ||| 0xf0) = 4 :=
  forall_of_below (by decide +kernel)

/-- The first byte of a character tells how many bytes the character has. -/
theorem exists_utf8EncodeChar (c : Char) :
    ∃ b w, String.utf8EncodeChar c = b :: w ∧ Byte.charWidth b = c.utf8Size := by
  rcases c.utf8Size_eq with size | size | size | size
  · refine ⟨_, _, String.utf8EncodeChar_eq_singleton size, ?_⟩
    rw [size]
    apply Byte.charWidth_ascii
    have small := UInt32.le_iff_toNat_le.mp (Char.utf8Size_eq_one_iff.mp size)
    rw [UInt8.lt_iff_toNat_lt, UInt32.toNat_toUInt8]
    exact Nat.lt_of_le_of_lt (Nat.mod_le _ _) (Nat.lt_succ_of_le small)
  · exact ⟨_, _, String.utf8EncodeChar_eq_cons_cons size, size ▸ (Byte.charWidth_leading _).1⟩
  · exact ⟨_, _, String.utf8EncodeChar_eq_cons_cons_cons size, size ▸ (Byte.charWidth_leading _).2.1⟩
  · exact ⟨_, _, String.utf8EncodeChar_eq_cons_cons_cons_cons size, size ▸ (Byte.charWidth_leading _).2.2⟩

namespace Text

/-- The text with the given bytes, empty if they are no sequence of whole characters. -/
def ofBytes (w : List UInt8) : String :=
  (String.fromUTF8? ⟨w.toArray⟩).getD ""

/-- A text is found again from its bytes. -/
theorem ofBytes_bytes (s : String) : ofBytes (bytes s) = s := by
  rw [ofBytes, fromUTF8?_eq (List.toList_toArray), Option.getD_some]

/-!
### Edges
-/

variable {source : String} {before w rest : List UInt8} {b : UInt8}

/-- A character of the source begins behind `i` bytes, or the source ends there. -/
def Edge (source : String) (i : Nat) : Prop :=
  (⟨i⟩ : String.Pos.Raw).IsValid source

theorem length_bytes (s : String) : (bytes s).length = s.utf8ByteSize := by
  simp [bytes]

/-- An edge of a character is a place where the text can be split. -/
theorem edge_iff {i : Nat} : Edge source i ↔
    ∃ front back, source = front ++ back ∧ (bytes front).length = i := by
  simp only [Edge, String.Pos.Raw.isValid_iff_exists_append, length_bytes, String.Pos.Raw.ext_iff,
    String.byteIdx_rawEndPos, eq_comm]

theorem edge_zero (source : String) : Edge source 0 :=
  edge_iff.mpr ⟨"", source, by simp, by simp [bytes_empty]⟩

/-- Behind the last character there is an edge. -/
theorem edge_end (source : String) : Edge source (bytes source).length :=
  edge_iff.mpr ⟨source, "", by simp, rfl⟩

/-- There is an edge in front of a byte that begins a character. -/
theorem edge_of_firstByte (content : bytes source = before ++ b :: rest) (first : b.IsUTF8FirstByte) :
    Edge source before.length := by
  have inside : (⟨before.length⟩ : String.Pos.Raw) < source.rawEndPos := by
    rw [String.Pos.Raw.lt_iff, String.byteIdx_rawEndPos, ← length_bytes, content]
    simp
  have here : source.getUTF8Byte ⟨before.length⟩ inside = b := by
    have found : (bytes source)[before.length]? = some b := by simp [content]
    exact (List.getElem?_eq_some_iff.mp found).2
  exact String.Pos.Raw.isValid_iff_isUTF8FirstByte.mpr (.inr ⟨inside, here ▸ first⟩)

/-- There is an edge in front of an ASCII byte. -/
theorem edge_of_ascii (content : bytes source = before ++ b :: rest) (ascii : b < 128) :
    Edge source before.length :=
  edge_of_firstByte content (Byte.isUTF8FirstByte_of_ascii b ascii)

/-- At an edge in front of a byte the bytes of one character begin, and the first of them tells how many they
    are. -/
theorem exists_char (content : bytes source = before ++ b :: rest) (edge : Edge source before.length) :
    ∃ front c back, source = front ++ String.singleton c ++ back ∧ bytes front = before ∧
      (bytes (String.singleton c)).length = Byte.charWidth b := by
  obtain ⟨front, back, rfl, front_length⟩ := edge_iff.mp edge
  rw [bytes_append] at content
  obtain ⟨rfl, behind⟩ := List.append_inj content front_length
  obtain ⟨cs, rfl⟩ : ∃ cs, back = String.ofList cs := ⟨back.toList, by simp⟩
  cases cs with
  | nil => simp [bytes] at behind
  | cons c cs =>
      obtain ⟨first, w, encoded, width⟩ := exists_utf8EncodeChar c
      have split : String.ofList (c :: cs) = String.singleton c ++ String.ofList cs := by
        rw [String.singleton_eq_ofList, ← String.ofList_append]
        rfl
      have one : bytes (String.singleton c) = first :: w := by
        simp [bytes, List.utf8Encode, encoded]
      rw [split, bytes_append, one] at behind
      obtain rfl : first = b := (List.cons.inj behind).1
      refine ⟨front, c, String.ofList cs, by rw [split, String.append_assoc], rfl, ?_⟩
      rw [one, width, ← encoded, String.length_utf8EncodeChar]

/-- There is an edge behind the character that begins at an edge. -/
theorem edge_behind_char (content : bytes source = before ++ b :: rest) (edge : Edge source before.length) :
    Edge source (before.length + Byte.charWidth b) := by
  obtain ⟨front, c, back, rfl, rfl, width⟩ := exists_char content edge
  exact edge_iff.mpr ⟨_, back, rfl, by rw [bytes_append, List.length_append, width]⟩

/-- Behind an ASCII byte there is an edge. -/
theorem edge_behind_ascii (content : bytes source = before ++ b :: rest) (ascii : b < 128) :
    Edge source (before.length + 1) :=
  Byte.charWidth_ascii b ascii ▸ edge_behind_char content (edge_of_ascii content ascii)

/-- No byte tells of more bytes than there are, also if it stands inside a character. -/
theorem add_charWidth_le (content : bytes source = before ++ b :: rest) :
    before.length + Byte.charWidth b ≤ (bytes source).length := by
  by_cases first : b.IsUTF8FirstByte
  · obtain ⟨front, c, back, rfl, rfl, width⟩ := exists_char content (edge_of_firstByte content first)
    rw [← width, bytes_append, bytes_append, List.length_append, List.length_append]
    exact Nat.le_add_right _ _
  · rw [Byte.charWidth_of_inner b first, content]
    simp

/-- Bytes between two edges are a text. -/
theorem bytes_ofBytes (content : bytes source = before ++ (w ++ rest)) (start : Edge source before.length)
    (stop : Edge source (before.length + w.length)) : bytes (ofBytes w) = w := by
  have part : (source.toByteArray.extract before.length (before.length + w.length)).data.toList = w := by
    have whole : source.toByteArray.data.toList = before ++ (w ++ rest) := content
    simp [whole]
  have inside : before.length + w.length ≤ source.utf8ByteSize := by
    rw [← length_bytes, content]
    simp
  have valid : (source.toByteArray.extract before.length (before.length + w.length)).IsValidUTF8 :=
    (String.Pos.Raw.isValidUTF8_extract_iff ⟨_⟩ ⟨_⟩ (Nat.le_add_right _ _) inside).mpr
      (.inr ⟨start, stop⟩)
  have same : (⟨w.toArray⟩ : ByteArray) =
      source.toByteArray.extract before.length (before.length + w.length) := by
    ext1
    rw [← Array.toList_inj, part]
  rw [ofBytes, same, String.fromUTF8?, dif_pos valid]
  exact part

end Text

end BuildScript
