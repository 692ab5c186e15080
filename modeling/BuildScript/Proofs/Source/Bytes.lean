/-
Module: BuildScript.Proofs.Source.Bytes
Layer: proofs about source text
Purpose: Texts as the bytes of their UTF-8 form, and what a buffer holds of them: the bytes at every
  position, zeros behind them, and the text between two positions.
Main exports: Text.bytes, Text.isWord, Buffer.Holds, Buffer.holds_ofSource
-/
import BuildScript.Source.Buffer
import BuildScript.Source.Byte
import Mathlib.Tactic.SplitIfs

namespace BuildScript

/-- What holds of the 256 bytes, one by one, holds of every byte. -/
theorem Byte.forall_of_below {p : UInt8 → Prop} (h : ∀ n < 256, p (UInt8.ofNat n)) (b : UInt8) : p b := by
  have same : UInt8.ofNat b.toNat = b := by simp
  exact same ▸ h b.toNat b.toNat_lt

namespace Text

/-- The bytes of the UTF-8 form of a text. -/
def bytes (s : String) : List UInt8 :=
  s.toUTF8.data.toList

theorem bytes_empty : bytes "" = [] := by
  simp [bytes]

/-- The bytes of texts in a row are those of each, in a row. -/
theorem bytes_append (s t : String) : bytes (s ++ t) = bytes s ++ bytes t := by
  simp [bytes]

/-- The text with given bytes is found again from them. -/
theorem fromUTF8?_eq {array : Array UInt8} {s : String} (same : array.toList = bytes s) :
    String.fromUTF8? ⟨array⟩ = some s := by
  obtain rfl : array = s.toByteArray.data := Array.toList_inj.mp same
  rw [String.fromUTF8?, dif_pos s.isValidUTF8]
  rfl

/-- Whether the text is a word: a letter or underscore, then letters, digits and underscores. -/
def isWord (s : String) : Bool :=
  match bytes s with
  | [] => false
  | b :: rest => Byte.isWordStart b && rest.all Byte.isWordByte

/-- A text is a word by its bytes. -/
theorem isWord_of_bytes {s : String} {b : UInt8} {w : List UInt8} (content : bytes s = b :: w)
    (start : Byte.isWordStart b = true) (inside : ∀ x ∈ w, Byte.isWordByte x = true) : isWord s = true := by
  rw [isWord, content]
  simp only [start, Bool.true_and]
  exact List.all_eq_true.mpr inside

end Text

namespace Buffer

/-- The buffer is filled with the content, and has room for the zeros behind it. -/
structure Holds (buffer : Buffer) (content : List UInt8) : Prop where
  length : buffer.length = content.length
  byteAt : ∀ i, buffer.byteAt i = content.getD i 0
  room : content.length + margin ≤ buffer.bytes.size
  extract : ∀ start stop, stop ≤ content.length →
    (buffer.bytes.extract start stop).toList = (content.drop start).take (stop - start)

/-- The padding leaves room for the margin. -/
theorem le_paddedSize (n : Nat) : n + margin ≤ paddedSize n := by
  unfold paddedSize margin blockSize
  omega

/-- Zeros behind the content are what any position behind it is taken to hold. -/
theorem getD_padded (content : Array UInt8) (zeros i : Nat) :
    (content ++ Array.replicate zeros 0).getD i 0 = content.toList.getD i 0 := by
  rw [Array.getD_eq_getD_getElem?, List.getD_eq_getElem?_getD, Array.getElem?_toList, Array.getElem?_append]
  split_ifs with inside
  · rfl
  · rw [Array.getElem?_eq_none (Nat.not_lt.mp inside), Array.getElem?_replicate]
    split_ifs <;> rfl

/-- The buffer of a source holds the bytes of the source. -/
theorem holds_ofSource (source : String) : (ofSource source).Holds (Text.bytes source) where
  length := by simp [ofSource, Text.bytes]
  byteAt i := getD_padded _ _ i
  room := by
    have room := le_paddedSize (Text.bytes source).length
    simp [ofSource, Text.bytes] at room ⊢
    omega
  extract start stop inside := by
    simp [ofSource, Text.bytes] at inside ⊢
    omega

/-- Between two positions of the buffer is the text whose bytes stand there. -/
theorem Holds.text {buffer : Buffer} {before : List UInt8} {s : String} (after : List UInt8)
    (h : buffer.Holds (before ++ Text.bytes s ++ after)) :
    buffer.text before.length (before.length + (Text.bytes s).length) = s := by
  have found : (buffer.bytes.extract before.length (before.length + (Text.bytes s).length)).toList =
      Text.bytes s := by
    rw [h.extract _ _ (by simp)]
    simp
  rw [Buffer.text, Text.fromUTF8?_eq found, Option.getD_some]

end Buffer

end BuildScript
