/-
Module: BuildScript.Proofs.Lexeme.Guarded
Layer: proofs about lexemes
Purpose: No guard of the scan is ever needed. Behind the source there are enough zeros to look two bytes ahead
  from its end; a run of a class without the zero byte stops at the first of them; and a byte that tells
  of a longer character has that many bytes behind it, even where the scan begins inside a character.
Main exports: Buffer.Sound, Cursor.Inside, Cursor.Guards, guards_recognize, scan_guarded
-/
import BuildScript.Lexeme.Guarded
import BuildScript.Proofs.Lexeme.Tiling

namespace BuildScript

/-!
### Buffers
-/

/-- The buffer holds the content, whose positions fit in 32 bits and whose characters are whole. -/
structure Buffer.Sound (buffer : Buffer) (content : List UInt8) : Prop extends buffer.Holds content where
  short : content.length < Position.limit
  whole : ∀ before b rest, content = before ++ b :: rest →
    before.length + Byte.charWidth b ≤ content.length

namespace Position

/-- The guard of a sum lets a position pass that fits in 32 bits. -/
theorem add?_eq {a b : Nat} (h : a + b < limit) : add? a b = some (a + b) :=
  if_pos h

/-- The guard of a difference lets it pass when nothing is borrowed. -/
theorem sub?_eq {a b : Nat} (h : b ≤ a) : sub? a b = some (a - b) :=
  if_pos h

end Position

namespace Buffer.Sound

variable {buffer : Buffer} {content : List UInt8} {inRun : UInt8 → Bool} {i : Nat}

/-- The zeros behind the source leave room to look ahead by two bytes from its end. -/
theorem read_eq (h : buffer.Sound content) (near : i ≤ content.length + 2) :
    buffer.bytes[i]? = some (buffer.byteAt i) := by
  have room := h.room
  unfold margin at room
  have inside : i < buffer.bytes.size := by omega
  rw [byteAt, Array.getD_eq_getD_getElem?, Array.getElem?_eq_getElem inside, Option.getD_some]

/-- Behind the source there are zeros only, so any other byte is one of the source. -/
theorem lt_of_byteAt_ne_zero (h : buffer.Sound content) (other : buffer.byteAt i ≠ 0) :
    i < content.length := by
  rw [h.byteAt] at other
  by_contra beyond
  exact other (List.getD_eq_default _ _ (Nat.not_lt.mp beyond))

/-- A byte that is not of the class ends the run where it stands. -/
theorem runEnd?_stop (h : buffer.Sound content) (inside : i ≤ content.length)
    (stop : inRun (buffer.byteAt i) = false) : buffer.runEnd? inRun i = some i := by
  have here := h.read_eq (i := i) (by omega)
  rw [runEnd?]
  split
  · simp_all
  · simp_all

/-- A byte of the class leaves the run to go on behind it. -/
theorem runEnd?_next (h : buffer.Sound content) (inside : i < content.length)
    (more : inRun (buffer.byteAt i) = true) :
    buffer.runEnd? inRun i = buffer.runEnd? inRun (i + 1) := by
  have here := h.read_eq (i := i) (by omega)
  have next : Position.add? i 1 = some (i + 1) := Position.add?_eq (by have := h.short; omega)
  rw [runEnd?]
  split
  · simp_all
  · rename_i b read
    obtain rfl : buffer.byteAt i = b := Option.some.inj (here.symm.trans read)
    rw [if_pos more]
    split
    · simp_all
    · simp_all

/-- A run of a class without the zero byte ends inside the source, or with it. -/
theorem runEnd?_eq (h : buffer.Sound content) (zero : inRun 0 = false) (inside : i ≤ content.length) :
    buffer.runEnd? inRun i = some (i + ((content.drop i).takeWhile inRun).length) := by
  induction left : content.length - i generalizing i with
  | zero =>
      -- Directly behind the source stands the first of the zeros, which is still in the buffer.
      have behind : content.length ≤ i := by omega
      have stop : inRun (buffer.byteAt i) = false := by
        rw [h.byteAt, List.getD_eq_default _ _ behind, zero]
      rw [h.runEnd?_stop inside stop, List.drop_eq_nil_of_le behind]
      rfl
  | succ left ih =>
      have before_end : i < content.length := by omega
      have byte : buffer.byteAt i = content[i] := by rw [h.byteAt, List.getD_eq_getElem _ _ before_end]
      rw [List.drop_eq_getElem_cons before_end, List.takeWhile_cons]
      split
      · rename_i more
        rw [h.runEnd?_next before_end (byte ▸ more), ih before_end (by omega), List.length_cons]
        exact congrArg some (Nat.add_right_comm i 1 _)
      · rename_i stop
        rw [h.runEnd?_stop inside (by rw [byte]; exact Bool.eq_false_iff.mpr stop)]
        rfl

end Buffer.Sound

/-!
### Searches
-/

/-- What has been found lies inside the bytes that were searched. -/
theorem add_length_le_of_offset? {needle bytes : List UInt8} {d : Nat} (found : offset? needle bytes = some d) :
    d + needle.length ≤ bytes.length := by
  induction bytes generalizing d with
  | nil =>
      cases needle with
      | nil =>
          cases found
          exact Nat.le_refl _
      | cons b rest => cases found
  | cons b bytes ih =>
      rw [offset?] at found
      split at found
      · rename_i here
        cases found
        simpa using (List.isPrefixOf_iff_prefix.mp here).length_le
      · obtain ⟨later, one, rfl⟩ := Option.map_eq_some_iff.mp found
        have := ih one
        rw [List.length_cons]
        omega

/-- A search in the source comes to the same as one in the bytes that are left of it. -/
theorem Buffer.Holds.find?_eq {buffer : Buffer} {content : List UInt8} (h : buffer.Holds content)
    (needle : List UInt8) {i : Nat} (inside : i ≤ content.length) :
    buffer.find? needle i = (offset? needle (content.drop i)).map (i + ·) := by
  rw [Buffer.find?, h.length]
  induction left : content.length - i generalizing i with
  | zero =>
      have holds := h.holdsAt_iff needle i inside
      rw [List.drop_eq_nil_of_le (by omega)] at holds ⊢
      cases needle with
      | nil => simp_all [findWithin, offset?]
      | cons b rest => simp_all [findWithin, offset?]
  | succ left ih =>
      have before_end : i < content.length := by omega
      have holds := h.holdsAt_iff needle i inside
      rw [List.drop_eq_getElem_cons before_end] at holds ⊢
      rw [findWithin, offset?]
      by_cases here : needle <+: content[i] :: content.drop (i + 1)
      · rw [if_pos (holds.mpr here), if_pos (List.isPrefixOf_iff_prefix.mpr here)]
        rfl
      · rw [if_neg (fun found => here (holds.mp found)),
          if_neg (fun found => here (List.isPrefixOf_iff_prefix.mp found)), ih before_end (by omega),
          Option.map_map]
        congr 1
        funext d
        simp only [Function.comp_apply]
        omega

namespace Cursor

/-!
### Cursors
-/

/-- The cursor stands in a sound buffer, behind the source at the most. -/
structure Inside (content : List UInt8) (c : Cursor) : Prop where
  sound : c.buffer.Sound content
  le : c.position ≤ content.length

/-- The cursor has moved on, and stands in the source or directly behind it. -/
structure Onward (content : List UInt8) (c d : Cursor) : Prop where
  inside : d.Inside content
  le : c.position ≤ d.position

variable {content : List UInt8} {c d e : Cursor}

/-- A cursor that does not move is as good as one that moves on. -/
theorem Inside.stays (h : c.Inside content) : c.Onward content c :=
  ⟨h, Nat.le_refl _⟩

/-- Moving on twice is moving on. -/
theorem Onward.trans (h : c.Onward content d) (h' : d.Onward content e) : c.Onward content e :=
  ⟨h'.inside, Nat.le_trans h.le h'.le⟩

namespace Inside

/-- A cursor may look at its own byte and at two more. -/
theorem read_eq (h : c.Inside content) {ahead : Nat} (near : ahead ≤ 2) :
    Guarded.read c ahead = some (c.buffer.byteAt (c.position + ahead)) :=
  h.sound.read_eq (by have := h.le; omega)

theorem current_eq (h : c.Inside content) : Guarded.read c 0 = some c.current :=
  h.read_eq (by omega)

theorem peek_eq (h : c.Inside content) : Guarded.read c 1 = some c.peek :=
  h.read_eq (by omega)

theorem peekSecond_eq (h : c.Inside content) : Guarded.read c 2 = some c.peekSecond :=
  h.read_eq (by omega)

theorem isEnd_eq (h : c.Inside content) : Guarded.isEnd c = some c.isEnd := by
  rw [Guarded.isEnd, h.current_eq]
  rfl

theorem current?_eq (h : c.Inside content) : Guarded.current? c = some c.current? := by
  rw [Guarded.current?, h.isEnd_eq, Cursor.current?, h.current_eq]
  cases c.isEnd <;> rfl

/-- Another byte than zero is one of the source. -/
theorem lt_of_ne_zero (h : c.Inside content) (ahead : Nat)
    (other : c.buffer.byteAt (c.position + ahead) ≠ 0) : c.position + ahead < content.length :=
  h.sound.lt_of_byteAt_ne_zero other

/-- Moving on inside the source needs no guard. -/
theorem forward (h : c.Inside content) {n : Nat} (room : c.position + n ≤ content.length) :
    Guarded.forward c n = some (c.forward n) ∧ c.Onward content (c.forward n) := by
  have sum := Position.add?_eq (Nat.lt_of_le_of_lt room h.sound.short)
  refine ⟨?_, ⟨h.sound, room⟩, Nat.le_add_right _ _⟩
  rw [Guarded.forward, sum]
  rfl

/-- The end of the source is as far as a cursor can go. -/
theorem toEnd (h : c.Inside content) : c.Onward content c.toEnd := by
  have length := h.sound.length
  exact ⟨⟨h.sound, Nat.le_of_eq length⟩, Nat.le_trans h.le (Nat.le_of_eq length.symm)⟩

/-- Skipping a class without the zero byte stops at the end of the source at the latest. -/
theorem skipWhile (h : c.Inside content) {inRun : UInt8 → Bool} (zero : inRun 0 = false) :
    Guarded.skipWhile c inRun = some (c.skipWhile inRun) ∧ c.Onward content (c.skipWhile inRun) := by
  have run := h.sound.runEnd?_eq zero h.le
  have room := h.sound.room
  have plain := h.sound.runEnd_eq zero (c.buffer.bytes.size - c.position) c.position (by omega)
  have bound := (List.takeWhile_prefix inRun (l := content.drop c.position)).length_le
  rw [List.length_drop] at bound
  have le := h.le
  refine ⟨?_, ⟨h.sound, ?_⟩, ?_⟩
  · rw [Guarded.skipWhile, run, Cursor.skipWhile, plain]
    rfl
  · rw [Cursor.skipWhile, plain]
    show c.position + _ ≤ _
    omega
  · rw [Cursor.skipWhile, plain]
    exact Nat.le_add_right _ _

/-- Skipping a character stays in the source, since the character is whole. -/
theorem skipChar (h : c.Inside content) (more : c.position < content.length) :
    Guarded.skipChar c = some c.skipChar ∧ c.Onward content c.skipChar := by
  have split : content = content.take c.position ++ content[c.position] :: content.drop (c.position + 1) := by
    rw [← List.drop_eq_getElem_cons more, List.take_append_drop]
  have byte : c.current = content[c.position] := by
    rw [Cursor.current, h.sound.byteAt, List.getD_eq_getElem _ _ more]
  -- A byte inside a character counts as one, so this holds wherever the scan began.
  have whole := h.sound.whole _ _ _ split
  rw [List.length_take, Nat.min_eq_left h.le, ← byte] at whole
  have short := h.sound.short
  have far := Position.add?_eq (Nat.lt_of_le_of_lt whole short)
  have next : Position.add? c.position 1 = some (c.position + 1) := Position.add?_eq (by omega)
  have positive : 0 < Byte.charWidth c.current := by
    unfold Byte.charWidth
    split_ifs <;> omega
  have length := h.sound.length
  refine ⟨?_, ⟨h.sound, ?_⟩, ?_⟩
  · rw [Guarded.skipChar, h.current_eq]
    simp only [Option.bind_eq_bind, Option.bind_some, far, next]
    rfl
  · simp only [Cursor.skipChar]
    omega
  · simp only [Cursor.skipChar]
    omega

/-- The slice of what is left is one of the source, whose end does not come before its start. -/
theorem rest_eq (h : c.Inside content) : Guarded.rest c = some (content.drop c.position) := by
  have start : min c.position c.buffer.length = c.position := by
    rw [h.sound.length, Nat.min_eq_left h.le]
  have room := h.sound.room
  have slice := h.sound.extract c.position content.length (Nat.le_refl _)
  rw [Guarded.rest]
  simp only [start]
  rw [if_pos ⟨by rw [h.sound.length]; exact h.le, by rw [h.sound.length]; omega⟩, h.sound.length, slice,
    List.take_of_length_le (by rw [List.length_drop])]

/-- A search from the cursor is one in the bytes that are left. -/
theorem distance?_eq (h : c.Inside content) (needle : List UInt8) :
    c.distance? needle = offset? needle (content.drop c.position) := by
  have start : min c.position c.buffer.length = c.position := by
    rw [h.sound.length, Nat.min_eq_left h.le]
  rw [Cursor.distance?, start, h.sound.find?_eq needle h.le, Option.map_map]
  simp [Function.comp_def]

/-- The end of a line is found inside the source, or else the cursor goes to its end. -/
theorem skipToNewline (h : c.Inside content) :
    Guarded.skipToNewline c = some c.skipToNewline ∧ c.Onward content c.skipToNewline := by
  have le := h.le
  rw [Guarded.skipToNewline, h.rest_eq, Cursor.skipToNewline, h.distance?_eq]
  simp only [Option.bind_eq_bind, Option.bind_some]
  cases found : offset? [Byte.newline] (content.drop c.position) with
  | none => exact ⟨rfl, h.toEnd⟩
  | some d =>
      have bound := add_length_le_of_offset? found
      rw [List.length_drop] at bound
      exact h.forward (by omega)

/-- A closing mark that is found lies in the source with all of its bytes. -/
theorem skipPast (h : c.Inside content) (needle : List UInt8) :
    Guarded.skipPast c needle = some (c.skipPast needle) ∧ c.Onward content (c.skipPast needle).2 := by
  have le := h.le
  rw [Guarded.skipPast, h.rest_eq, Cursor.skipPast, h.distance?_eq]
  simp only [Option.bind_eq_bind, Option.bind_some]
  cases found : offset? needle (content.drop c.position) with
  | none => exact ⟨rfl, h.toEnd⟩
  | some d =>
      have bound := add_length_le_of_offset? found
      rw [List.length_drop] at bound
      have short := h.sound.short
      have sum : Position.add? d needle.length = some (d + needle.length) := Position.add?_eq (by omega)
      obtain ⟨guarded, onward⟩ := h.forward (n := d + needle.length) (by omega)
      refine ⟨?_, onward⟩
      simp only [sum, Option.bind_some, guarded]
      rfl

end Inside

/-!
### Lexemes
-/

/-- The guarded reading of a lexeme comes to the same as the plain one, and ends in the source. -/
structure Guards (content : List UInt8) (c : Cursor) (guarded : Option (Lexeme.Kind × Cursor))
    (plain : Lexeme.Kind × Cursor) : Prop where
  eq : guarded = some plain
  onward : c.Onward content plain.2

/-- What is read behind the cursor from further on is read from it. -/
theorem Guards.behind {guarded : Option (Lexeme.Kind × Cursor)} {plain : Lexeme.Kind × Cursor}
    (h : d.Guards content guarded plain) (onward : c.Onward content d) : c.Guards content guarded plain :=
  ⟨h.eq, onward.trans h.onward⟩

/-- Runs of any class without the zero byte pass their guards. -/
theorem guards_run (h : c.Inside content) {inRun : UInt8 → Bool} (zero : inRun 0 = false)
    (kind : Lexeme.Kind) :
    c.Guards content (do let after ← Guarded.skipWhile c inRun; return (kind, after))
      (kind, c.skipWhile inRun) := by
  obtain ⟨guarded, onward⟩ := h.skipWhile zero
  exact ⟨by rw [guarded]; rfl, onward⟩

/-- Word bytes do not have the zero byte among them. -/
theorem guards_malformedNumber (h : c.Inside content) :
    c.Guards content (Guarded.malformedNumber c) c.malformedNumber :=
  guards_run h rfl _

/-- The byte behind the digits may be looked at, whether it is one of the source or a zero. -/
theorem guards_digits (h : c.Inside content) (radix : Radix) :
    c.Guards content (Guarded.digits c radix) (c.digits radix) := by
  obtain ⟨run, onward⟩ := h.skipWhile (Between.zero_not_digit radix)
  have next := onward.inside.current?_eq
  rw [Guarded.digits, Cursor.digits, run]
  simp only [Option.bind_eq_bind, Option.bind_some, next]
  split
  · exact ⟨rfl, onward⟩
  · exact (guards_malformedNumber onward.inside).behind onward

theorem radixMark?_eq_guarded (h : c.Inside content) : Guarded.radixMark? c = some c.radixMark? := by
  rw [Guarded.radixMark?, Cursor.radixMark?, h.current_eq]
  simp only [Option.bind_eq_bind, Option.bind_some, h.peek_eq]
  split <;> rfl

/-- A zero with the letter of a radix behind it is followed by the end of the source at the nearest. -/
theorem Inside.le_of_radixMark? (h : c.Inside content) {radix : Radix} (mark : c.radixMark? = some radix) :
    c.position + 2 ≤ content.length := by
  have second : c.buffer.byteAt (c.position + 1) ≠ 0 := by
    intro zero
    rw [Cursor.radixMark?, Cursor.peek, zero] at mark
    split at mark <;> cases mark
  exact h.lt_of_ne_zero 1 second

/-- The radix mark is looked for with one byte of lookahead, and skipped only when both of its bytes are
    there. -/
theorem guards_number (h : c.Inside content) : c.Guards content (Guarded.number c) c.number := by
  rw [Guarded.number, Cursor.number, radixMark?_eq_guarded h]
  simp only [Option.bind_eq_bind, Option.bind_some]
  cases mark : c.radixMark? with
  | none => exact guards_digits h .decimal
  | some radix =>
      obtain ⟨guarded, onward⟩ := h.forward (h.le_of_radixMark? mark)
      simp only [guarded, Option.bind_some, onward.inside.current_eq]
      split
      · exact (guards_digits onward.inside radix).behind onward
      · exact (guards_malformedNumber onward.inside).behind onward

theorem quoting_eq_guarded (h : c.Inside content) : Guarded.quoting c = some c.quoting := by
  rw [Guarded.quoting, Cursor.quoting, h.peek_eq]
  simp only [Option.bind_eq_bind, Option.bind_some, h.peekSecond_eq]
  by_cases second : c.peek = Byte.quote <;> simp [second]

/-- All bytes of an opening mark are bytes of the source. -/
theorem Inside.le_of_quoting (h : c.Inside content) (first : c.current = Byte.quote) :
    c.position + c.quoting.markBytes.length ≤ content.length := by
  have nonzero : Byte.quote ≠ 0 := by decide
  unfold Cursor.quoting
  split
  · rename_i two
    simp only [Bool.and_eq_true, beq_iff_eq] at two
    exact h.lt_of_ne_zero 2 (by rw [← Cursor.peekSecond, two.2]; exact nonzero)
  · exact h.lt_of_ne_zero 0 (by rw [Nat.add_zero, ← Cursor.current, first]; exact nonzero)

/-- The opening mark is skipped when all of its quotes are there, and the closing one is searched for in the
    source. -/
theorem guards_string (h : c.Inside content) (first : c.current = Byte.quote) :
    c.Guards content (Guarded.string c) c.string := by
  obtain ⟨opened, onward⟩ := h.forward (h.le_of_quoting first)
  obtain ⟨guarded, behind⟩ := onward.inside.skipPast c.quoting.markBytes
  rw [Guarded.string, Cursor.string, quoting_eq_guarded h]
  simp only [Option.bind_eq_bind, Option.bind_some, opened, guarded]
  exact ⟨rfl, onward.trans behind⟩

/-- A sign is taken with the equals sign behind it only if there is one. -/
theorem guards_sign (h : c.Inside content) (more : c.position < content.length) (alone : Lexeme.Kind)
    (extended : Option Punct) :
    c.Guards content (Guarded.sign c alone extended) (c.sign alone extended) := by
  obtain ⟨guarded, onward⟩ := h.forward (n := 1) more
  rw [Guarded.sign, guarded]
  cases extended with
  | none => exact ⟨rfl, onward⟩
  | some longer =>
      have plain : c.sign alone (some longer) = if (c.forward 1).current == Byte.equals then
          (.punct longer, (c.forward 1).forward 1) else (alone, c.forward 1) := rfl
      rw [plain]
      simp only [Option.bind_eq_bind, Option.bind_some, onward.inside.current_eq]
      split
      · rename_i equals
        have nonzero : Byte.equals ≠ 0 := by decide
        have room : (c.forward 1).position < content.length :=
          onward.inside.lt_of_ne_zero 0
            (by rw [Nat.add_zero, ← Cursor.current, eq_of_beq equals]; exact nonzero)
        obtain ⟨guarded, further⟩ := onward.inside.forward (n := 1) room
        exact ⟨by rw [guarded]; rfl, onward.trans further⟩
      · exact ⟨rfl, onward⟩

/-- A character that begins no lexeme is skipped as a whole. -/
theorem guards_stray (h : c.Inside content) (more : c.position < content.length) :
    c.Guards content (Guarded.stray c) (.invalidChar, c.skipChar) := by
  obtain ⟨guarded, onward⟩ := h.skipChar more
  exact ⟨by rw [Guarded.stray, guarded]; rfl, onward⟩

/-- No lexeme is read beyond the buffer, and every position on the way is one of 32 bits. -/
theorem guards_recognize (h : c.Inside content) : c.Guards content (Guarded.recognize c) c.recognize := by
  rw [Guarded.recognize, Cursor.recognize, h.current_eq]
  simp only [Option.bind_eq_bind, Option.bind_some, h.isEnd_eq]
  by_cases zero : c.current = 0
  · simp only [zero, beq_self_eq_true, if_true]
    cases ends : c.isEnd with
    | true => exact ⟨rfl, h.stays⟩
    | false =>
        -- Only its position tells a zero inside the source from the ones behind it.
        have more : c.position < content.length := by
          rw [Cursor.isEnd, zero, h.sound.length] at ends
          simpa using ends
        exact guards_stray h more
  · have more : c.position < content.length := h.lt_of_ne_zero 0 zero
    simp only [beq_iff_eq, if_false, beq_eq_false_iff_ne.mpr zero, Bool.false_and, Bool.false_eq_true]
    split_ifs with blank comment word digit quote bang
    · exact guards_run h rfl _
    · obtain ⟨guarded, onward⟩ := h.skipToNewline
      exact ⟨by rw [guarded]; rfl, onward⟩
    · exact guards_run h rfl _
    · exact guards_number h
    · exact guards_string h quote
    · exact guards_sign h more _ _
    · cases sign : Punct.ofByte? c.current with
      | some p => exact guards_sign h more _ _
      | none => exact guards_stray h more

/-- A scan passes all guards, comes to the same as without them, and leaves the cursor in the source or
    directly behind it. -/
theorem Inside.scan (h : c.Inside content) : Guarded.scan c = some c.scan ∧ c.scan.2.Inside content := by
  obtain ⟨guarded, onward⟩ := guards_recognize h
  have length := Position.sub?_eq onward.le
  refine ⟨?_, onward.inside⟩
  rw [Guarded.scan, guarded]
  simp only [Option.bind_eq_bind, Option.bind_some, length]
  rfl

/-- After any number of scans the cursor is still in the source or directly behind it. -/
theorem Inside.behind (h : c.Inside content) (n : Nat) : (c.behind n).Inside content := by
  induction n generalizing c with
  | zero => exact h
  | succ n ih => exact ih h.scan.2

end Cursor

/-!
### Sources
-/

/-- Masking the lowest six bits rounds down to a multiple of 64. -/
theorem Buffer.and_not_low (x : BitVec 64) : x &&& ~~~(63 : BitVec 64) = (x >>> 6) <<< 6 := by
  have mask : ~~~(63 : BitVec 64) = BitVec.allOnes 64 <<< 6 := by decide
  rw [mask]
  ext i inside
  simp only [BitVec.getElem_and, BitVec.getElem_shiftLeft, BitVec.getElem_ushiftRight,
    BitVec.getElem_allOnes]
  by_cases low : i < 6
  · simp [low]
  · simp only [low, decide_false, Bool.not_false, Bool.true_and, Bool.and_true]
    rw [Nat.add_sub_cancel' (Nat.not_lt.mp low), BitVec.getLsbD_eq_getElem inside]

/-- A buffer's size is worked out by masking the lowest six bits of a number of 64 bits. -/
theorem Buffer.paddedSize_eq_mask {n : Nat} (short : n < Position.limit) :
    ((BitVec.ofNat 64 n + 3 + 64 - 1) &&& ~~~(64 - 1 : BitVec 64)).toNat = Buffer.paddedSize n := by
  unfold Position.limit UInt32.size at short
  have sum : (BitVec.ofNat 64 n + 3 + 64 - 1).toNat = n + 66 := by bv_omega
  have low : (64 - 1 : BitVec 64) = 63 := by decide
  rw [low, Buffer.and_not_low, BitVec.toNat_shiftLeft, BitVec.toNat_ushiftRight, sum,
    Nat.shiftRight_eq_div_pow, Nat.shiftLeft_eq]
  unfold Buffer.paddedSize Buffer.margin Buffer.blockSize
  omega

/-- The buffer of a source is sound when the positions of the source fit in 32 bits. -/
theorem Buffer.sound_ofSource {source : String} (short : (Text.bytes source).length < Position.limit) :
    (Buffer.ofSource source).Sound (Text.bytes source) where
  toHolds := Buffer.holds_ofSource source
  short := short
  whole _ _ _ content := Text.add_charWidth_le content

/-- The padding makes up for what the source lacks of whole blocks. -/
theorem Buffer.size_ofSource (source : String) :
    (Buffer.ofSource source).bytes.size = Buffer.paddedSize (Text.bytes source).length := by
  have room := Buffer.le_paddedSize (Text.bytes source).length
  simp only [Buffer.ofSource, Text.bytes, Array.size_append, Array.size_replicate, Array.length_toList]
    at room ⊢
  omega

/-- A cursor may start anywhere, and one that would start behind the source starts at its end. -/
theorem Cursor.Inside.cursorFrom {buffer : Buffer} {content : List UInt8} (sound : buffer.Sound content)
    (start : Nat) :
    Cursor.Guarded.cursorFrom buffer start = some (buffer.cursorFrom start) ∧
      (buffer.cursorFrom start).Inside content := by
  have room := sound.room
  have length := sound.length
  have short := sound.short
  unfold Buffer.margin at room
  have position : Position.add? 0 (min start buffer.length) = some (min start buffer.length) := by
    rw [Position.add?_eq (by omega), Nat.zero_add]
  refine ⟨?_, sound, ?_⟩
  · rw [Cursor.Guarded.cursorFrom, if_pos (by omega), position]
    rfl
  · show min start buffer.length ≤ _
    omega

/-- Scanning stays in the padded buffer. The buffer of a source whose positions fit in 32 bits is rounded up
    to whole blocks with three zeros at the least, and from any start, in the middle of a character too,
    each of any number of scans passes all its guards. -/
theorem scan_guarded (source : String) (short : (Text.bytes source).length < Position.limit) :
    ((Buffer.ofSource source).bytes.size =
        ((BitVec.ofNat 64 (Text.bytes source).length + 3 + 64 - 1) &&& ~~~(64 - 1 : BitVec 64)).toNat ∧
      64 ∣ (Buffer.ofSource source).bytes.size ∧
      (Text.bytes source).length + 3 ≤ (Buffer.ofSource source).bytes.size ∧
      ∃ zeros, (Buffer.ofSource source).bytes.toList = Text.bytes source ++ List.replicate zeros 0) ∧
    ∀ start ≤ (Text.bytes source).length, ∃ c,
      Cursor.Guarded.cursorFrom (Buffer.ofSource source) start = some c ∧ c.position = start ∧
      ∀ calls, (c.behind calls).position ≤ (Text.bytes source).length ∧
        Cursor.Guarded.scan (c.behind calls) = some (c.behind calls).scan := by
  have sound := Buffer.sound_ofSource short
  have size := Buffer.size_ofSource source
  refine ⟨⟨?_, ?_, sound.room, ?_⟩, ?_⟩
  · rw [size, Buffer.paddedSize_eq_mask short]
  · rw [size]
    exact Nat.dvd_mul_left _ _
  · exact ⟨_, by rw [Buffer.ofSource, Text.bytes, Array.toList_append, Array.toList_replicate]⟩
  · intro start inside
    obtain ⟨guarded, stands⟩ := Cursor.Inside.cursorFrom sound start
    refine ⟨_, guarded, ?_, fun calls => ⟨(stands.behind calls).le, (stands.behind calls).scan.1⟩⟩
    show min start _ = start
    rw [sound.length, Nat.min_eq_left inside]

theorem scan_guarded_accented :
    (Text.bytes "x = 'é'").length < Position.limit ∧ ∃ c,
      Cursor.Guarded.cursorFrom (Buffer.ofSource "x = 'é'") 6 = some c ∧ c.position = 6 ∧
      ∀ calls, (c.behind calls).position ≤ (Text.bytes "x = 'é'").length ∧
        Cursor.Guarded.scan (c.behind calls) = some (c.behind calls).scan :=
  ⟨by decide, (scan_guarded "x = 'é'" (by decide)).2 6 (by decide)⟩

end BuildScript
