/-
Module: BuildScript.Proofs.Grammar.Diagnosis
Layer: proofs about the grammar
Purpose: The productions reject terminals only for causes that the grammar gives. A step of a reading without
  a limit is `Rejecting` a relation when each of its rejections, with the terminals it stands in front of,
  is one that the relation admits; a step in a sequence may in addition rely on what the steps before it
  have read.
Main exports: Parser.Rejecting, rejects_expression, rejects_statement, rejects_program
-/
import BuildScript.Proofs.Grammar.Acceptance
import BuildScript.Proofs.Grammar.Rejection

namespace BuildScript

namespace Parser

open Grammar (Starts operandOf Phrase Level Derives Asks Rejects)

variable {α β : Type}

/-- In front of `i` the step is rejected only for a cause and in front of terminals that `F` admits. -/
def Rejecting (x : Parser α) (i : List Terminal) (F : SyntaxError → List Terminal → Prop) : Prop :=
  ∀ (built : Nat) (cause : SyntaxError) (s : State), x (.free i built) = .error (.rejected cause) s →
    ∃ o built', s = .free o built' ∧ F cause o

namespace Rejecting

variable {x : Parser α} {f : α → Parser β} {i m : List Terminal}
  {F G : SyntaxError → List Terminal → Prop} {cause : SyntaxError}

/-- A relation that admits more admits what the step is rejected for. -/
theorem mono (h : Rejecting x i F) (admits : ∀ cause o, F cause o → G cause o) : Rejecting x i G := by
  intro built cause s run
  obtain ⟨o, built', same, rejected⟩ := h built cause s run
  exact ⟨o, built', same, admits cause o rejected⟩

/-- What a part is rejected for, the phrase that asks for the part is rejected for. -/
theorem asked {phrase part : Phrase} {input rest : List Terminal} (asks : Asks phrase input part rest)
    (h : Rejecting x i (Rejects part rest)) : Rejecting x i (Rejects phrase input) :=
  h.mono fun _ _ => asks.rejects

/-- A step that takes nothing and builds nothing cannot be rejected. -/
theorem pure (a : α) : Rejecting (Pure.pure a : Parser α) i F := by
  intro built cause s run
  cases run

/-- Building is rejected at the limit only, and there is none here. -/
theorem build (t : Tree) : Rejecting (build t) i F := by
  intro built cause s run
  cases run

/-- A rejection stands where the reading has come to. -/
theorem reject (admits : F cause i) : Rejecting (Parser.reject cause : Parser α) i F := by
  rintro built _ s ⟨⟩
  exact ⟨i, built, rfl, admits⟩

/-!
### Sequencing
-/

/-- A sequence is rejected in its first step, or in the second one on what the first has left. -/
theorem bind {D : α → List Terminal → Prop} (reads : Reads x i D) (first : Rejecting x i F)
    (next : ∀ a m, D a m → Rejecting (f a) m F) : Rejecting (x >>= f) i F := by
  intro built cause s run
  obtain begins | ⟨a, s1, begins, later⟩ := bind_inv_error run
  · exact first built cause s begins
  · obtain ⟨m, built1, rfl, found⟩ := reads.sound built a s1 begins
    exact next a m found built1 cause s later

/-- Behind a step whose outcome is known, only what follows it can be rejected. -/
theorem after {a : α} (runs : ∀ built, ∃ built', x (.free i built) = .ok a (.free m built'))
    (next : Rejecting (f a) m F) : Rejecting (x >>= f) i F := by
  intro built cause s run
  obtain ⟨built', begins⟩ := runs built
  rw [bind_apply_ok begins] at run
  exact next built' cause s run

theorem rejected (admits : F cause i) : Rejecting (Parser.reject cause >>= f) i F := by
  rintro built _ s ⟨⟩
  exact ⟨i, built, rfl, admits⟩

theorem built {f : Tree → Parser β} (t : Tree) (next : Rejecting (f t) i F) :
    Rejecting (Parser.build t >>= f) i F :=
  after (fun built => ⟨built + 1, rfl⟩) next

/-- The operand has been read already, or an empty tree is built for it. Neither can be rejected. -/
theorem leftOperand {f : Tree → Parser β} (lhs : Option Tree) (next : Rejecting (f (operandOf lhs)) i F) :
    Rejecting (leftOperand lhs >>= f) i F := by
  cases lhs with
  | none => exact built .empty next
  | some t => exact after (fun built => ⟨built, rfl⟩) next

/-- A production that has to find something is rejected where it is, or finds nothing. -/
theorem require {p : Production} {D : Option Tree → List Terminal → Prop} (reads : Reads p i D)
    (inner : Rejecting p i F) (absent : ∀ o, D none o → F cause o) : Rejecting (require p cause) i F := by
  refine bind reads inner fun found m h => ?_
  cases found with
  | none => exact reject (absent m h)
  | some t => exact pure t

/-- A phrase of a level that has to be there, with what follows it. -/
theorem needed {p : Production} {l : Level} {f : Tree → Parser β} (reads : Reads p i (Derives (.level l) i))
    (inner : Rejecting p i F) (absent : Derives (.level l) i none i → F cause i)
    (next : ∀ t m, Derives (.level l) i (some t) m → Rejecting (f t) m F) :
    Rejecting (Parser.require p cause >>= f) i F := by
  refine bind (.require reads cause) (require reads inner fun o none => ?_) next
  obtain rfl := none.eq_of_none
  exact absent none

/-!
### Branches on the next terminal
-/

/-- Either the terminal is there and the step goes on behind it, or it is not, and nothing has been taken. -/
theorem accept {t : Terminal} {f : Bool → Parser β} (yes : ∀ m, i = t :: m → Rejecting (f true) m F)
    (no : Starts (· == t) i = false → Rejecting (f false) i F) : Rejecting (accept t >>= f) i F := by
  cases i with
  | nil => exact after (fun built => ⟨built, rfl⟩) (no rfl)
  | cons next rest =>
      by_cases same : next = t
      · subst same
        exact after (fun built => ⟨built, by simp [Parser.accept, State.free]⟩) (yes rest rfl)
      · exact after (fun built => ⟨built, by simp [Parser.accept, State.free, same]⟩)
          (no (by simp [Starts, same]))

/-- A terminal that is missing is blamed where it should have been. -/
theorem expect {t : Terminal} {f : Unit → Parser β} (next : ∀ m, i = t :: m → Rejecting (f ()) m F)
    (missing : Starts (· == t) i = false → F cause i) : Rejecting (expect t cause >>= f) i F := by
  have split : (Parser.expect t cause >>= f) =
      Parser.accept t >>= fun there => (unless there do Parser.reject cause) >>= f := bind_assoc ..
  rw [split]
  exact accept (fun m input => after (fun built => ⟨built, rfl⟩) (next m input)) fun other =>
    rejected (missing other)

/-- Either the terminal is one that is looked for and has been taken, or it is left where it is. -/
theorem take? {ω : Type} {g : Terminal → Option ω} {f : Option ω → Parser β}
    (yes : ∀ t a m, g t = some a → i = t :: m → Rejecting (f (some a)) m F)
    (no : Starts (fun t => (g t).isSome) i = false → Rejecting (f none) i F) :
    Rejecting (take? g >>= f) i F := by
  cases i with
  | nil => exact after (fun built => ⟨built, rfl⟩) (no rfl)
  | cons next rest =>
      cases made : g next with
      | none =>
          exact after (fun built => ⟨built, by simp [Parser.take?, State.free, made]⟩)
            (no (by simp [Starts, made]))
      | some a =>
          exact after (fun built => ⟨built, by simp [Parser.take?, State.free, made]⟩)
            (yes next a rest made rfl)

theorem peek {f : Option Terminal → Parser β} (h : Rejecting (f i.head?) i F) :
    Rejecting (peek >>= f) i F :=
  after (fun built => ⟨built, rfl⟩) h

theorem skip {f : Unit → Parser β} (h : Rejecting (f ()) i.tail F) : Rejecting (skip >>= f) i F :=
  after (fun built => ⟨built, rfl⟩) h

end Rejecting

end Parser

namespace Grammar

open BuildScript.Parser

variable {i : List Terminal}

/-!
### Rows
-/

/-- The comma of a row may be there or not, and so may an element behind it. -/
theorem rejects_continues (close : Punct) {F : SyntaxError → List Terminal → Prop} :
    Rejecting (continues close) i F :=
  .accept (fun _ _ => .peek (.pure _)) fun _ => .pure false

/-- Rows of any kind: `element` is the production of an element, and `all` that of the row. -/
theorem rejects_row (row : Row) {n : Nat} (element : Bool → Parser row.Element)
    (all : Nat → Bool → Parser (List row.Element))
    (all_zero : ∀ only, all 0 only = do return [← element only])
    (all_succ : ∀ bound only, all (bound + 1) only = do
      let first ← element only
      if ← continues row.close then
        let others ← all bound (row.isKeyword first)
        return first :: others
      else return [first])
    (reads_element : ∀ only (i : List Terminal), i.length < n →
      Parser.Reads (element only) i (Derives (.element row only) i))
    (rejects_element : ∀ only (i : List Terminal), i.length < n →
      Rejecting (element only) i (Rejects (.element row only) i))
    (bound : Nat) (only : Bool) (short : i.length < n) (enough : i.length ≤ bound) :
    Rejecting (all bound only) i (Rejects (.row row only) i) := by
  induction bound generalizing i only with
  | zero =>
      rw [all_zero]
      exact .bind (reads_element only i short) (.asked .element (rejects_element only i short))
        fun first m _ => .pure _
  | succ bound ih =>
      rw [all_succ]
      refine .bind (reads_element only i short) (.asked .element (rejects_element only i short))
        fun first m taken => .bind (reads_continues row.close) (rejects_continues row.close)
          fun more k ends => ?_
      cases more with
      | false => exact .pure _
      | true =>
          obtain ⟨rfl, goes_on⟩ := ends
          have shorter : (Terminal.punct .comma :: k).length + 1 ≤ i.length := taken.length_add_least
          rw [List.length_cons] at shorter
          have k_short : k.length < n := by omega
          have k_enough : k.length ≤ bound := by omega
          exact .bind (reads_row row element all all_zero all_succ reads_element bound _ k_short k_enough)
            (.asked (.more taken goes_on) (ih _ k_short k_enough)) fun others m _ => .pure _

/-- A row in brackets is rejected inside, or for its closing bracket. -/
theorem rejects_bracketed (row : Row) {all : Parser (List row.Element)}
    (reads_all : Parser.Reads all i (Derives (.row row false) i))
    (rejects_all : Rejecting all i (Rejects (.row row false) i)) :
    Rejecting (bracketed row.close row.unclosed all) i (Rejects (.bracketed row) i) :=
  .accept (fun _ _ => .pure []) fun other =>
    .bind reads_all (.asked (.elements other) rejects_all) fun found _ elements =>
      .expect (fun _ _ => .pure found) fun missing => (Blames.unclosed elements missing).rejects

/-!
### Primaries and chains
-/

/-- That there is no name is nothing to reject a name for. -/
theorem rejects_name {F : SyntaxError → List Terminal → Prop} : Rejecting name i F :=
  .take? (fun _ text _ _ _ => .built (.name text) (.pure _)) fun _ => .pure none

section

variable {nested : Production} {n : Nat}
  (inner : ∀ i : List Terminal, i.length < n → Parser.Reads nested i (Derives expr i))
  (rejects : ∀ i : List Terminal, i.length < n → Rejecting nested i (Rejects expr i))

include inner rejects

/-- An item that is missing is blamed in front of what stands there in its place. -/
theorem rejects_item (short : i.length < n) (only : Bool) :
    Rejecting (require nested .arrayItem) i (Rejects (.element .items only) i) := by
  refine .require (inner i short) (.asked .inner (rejects i short)) fun o absent => ?_
  obtain rfl := absent.eq_of_none
  exact (Blames.unfilled absent).rejects

/-- An entry is rejected for its key, its colon or its value, whichever is missing first. -/
theorem rejects_entry (short : i.length < n) (only : Bool) :
    Rejecting (entry nested) i (Rejects (.element .entries only) i) := by
  refine .needed (inner i short) (.asked .inner (rejects i short))
    (fun absent => (@Blames.unfilled .entries _ _ absent).rejects) fun key m left =>
      .expect (fun k input => ?_) fun missing => (Blames.dictionaryColon left missing).rejects
  subst input
  have shorter := left.length_lt
  rw [List.length_cons] at shorter
  have k_short : k.length < n := by omega
  exact .needed (inner k k_short) (.asked (.entryValue left) (rejects k k_short))
    (fun absent => (Blames.dictionaryValue left absent).rejects) fun value _ _ => .build _

/-- An argument is rejected for a keyword that is no name or that is missing, or for a value that is. -/
theorem rejects_argument (short : i.length < n) (only : Bool) :
    Rejecting (argument nested only) i (Rejects (.element .arguments only) i) := by
  refine .needed (inner i short) (.asked .inner (rejects i short))
    (fun absent => (@Blames.unfilled .arguments _ _ absent).rejects) fun arg m value =>
      .accept (fun k input => ?_) fun plain => ?_
  · subst input
    have shorter := value.length_lt
    rw [List.length_cons] at shorter
    have k_short : k.length < n := by omega
    cases arg with
    | name text =>
        exact .needed (inner k k_short) (.asked (.keywordValue value) (rejects k k_short))
          (fun absent => (Blames.keywordValue value absent).rejects)
          fun right _ _ => .built _ (.pure _)
    | _ => exact .rejected (Blames.keywordName value rfl).rejects
  · cases only with
    | true => exact .reject (Blames.keywordMissing value plain).rejects
    | false => exact .pure _

theorem rejects_items {bound : Nat} (short : i.length < n) (enough : i.length ≤ bound) :
    Rejecting (elements .rightBracket (require nested .arrayItem) bound) i
      (Rejects (.row .items false) i) :=
  rejects_row .items (fun _ => require nested .arrayItem)
    (fun bound _ => elements .rightBracket (require nested .arrayItem) bound)
    (fun _ => rfl) (fun _ _ => rfl) (fun only _ short => reads_item inner short only _)
    (fun only _ short => rejects_item inner rejects short only) bound false short enough

theorem rejects_entries {bound : Nat} (short : i.length < n) (enough : i.length ≤ bound) :
    Rejecting (elements .rightBrace (entry nested) bound) i (Rejects (.row .entries false) i) :=
  rejects_row .entries (fun _ => entry nested)
    (fun bound _ => elements .rightBrace (entry nested) bound)
    (fun _ => rfl) (fun _ _ => rfl) (fun only _ short => reads_entry inner short only)
    (fun only _ short => rejects_entry inner rejects short only) bound false short enough

theorem rejects_arguments {bound : Nat} (short : i.length < n) (enough : i.length ≤ bound) :
    Rejecting (arguments nested bound false) i (Rejects (.row .arguments false) i) :=
  rejects_row .arguments (argument nested) (arguments nested) (fun _ => rfl) (fun _ _ => rfl)
    (fun only _ short => reads_argument inner short only)
    (fun only _ short => rejects_argument inner rejects short only) bound false short enough

/-- Parentheses are rejected for what is in them or for the closing one, a row in brackets as any row is, and a
    number for being too large. -/
theorem rejects_primary {bound : Nat} (small : bound ≤ n) (enough : i.length ≤ bound) :
    Rejecting (primary bound nested) i (Rejects (.level .primary) i) := by
  refine .peek ?_
  split
  · rename_i next
    obtain ⟨m, rfl⟩ := List.head?_eq_some_iff.mp next
    have short : m.length < n := Nat.lt_of_lt_of_le enough small
    exact .skip (.needed (inner m short) (.asked .parenthesized (rejects m short))
      (fun absent => (Blames.parenthesized absent).rejects)
      fun t k h => .expect (fun _ _ => .pure _) fun missing => (Blames.closingParen h missing).rejects)
  · rename_i next
    obtain ⟨m, rfl⟩ := List.head?_eq_some_iff.mp next
    have short : m.length < n := Nat.lt_of_lt_of_le enough small
    have m_enough : m.length ≤ bound := Nat.le_of_succ_le enough
    have row := reads_items inner short m_enough
    exact .skip (.bind (reads_bracketed .items .arrayClose row)
      (.asked .array (rejects_bracketed .items row (rejects_items inner rejects short m_enough)))
      fun items _ _ => .built (.array items) (.pure _))
  · rename_i next
    obtain ⟨m, rfl⟩ := List.head?_eq_some_iff.mp next
    have short : m.length < n := Nat.lt_of_lt_of_le enough small
    have m_enough : m.length ≤ bound := Nat.le_of_succ_le enough
    have row := reads_entries inner short m_enough
    exact .skip (.bind (reads_bracketed .entries .dictionaryClose row)
      (.asked .dictionary (rejects_bracketed .entries row (rejects_entries inner rejects short m_enough)))
      fun entries _ _ => .built (.dictionary entries) (.pure _))
  · exact .skip (.built (.bool true) (.pure _))
  · exact .skip (.built (.bool false) (.pure _))
  · rename_i value? next
    cases value? with
    | some value => exact .skip (.built (.number value) (.pure _))
    | none =>
        obtain ⟨m, rfl⟩ := List.head?_eq_some_iff.mp next
        exact .reject Blames.numberRange.rejects
  · rename_i content _
    exact .skip (.built (.string content) (.pure _))
  · exact rejects_name

/-- Whatever is behind a dot is blamed if it is no name. -/
theorem rejects_field {bound : Nat} (small : bound ≤ n) (enough : i.length ≤ bound) (object : Tree) :
    Rejecting (field bound nested) i (Rejects (.links object) (.punct .dot :: i)) := by
  refine .needed (reads_primary inner small enough)
    (.asked .field (rejects_primary inner rejects small enough))
    (fun absent => (Blames.fieldMissing absent).rejects) fun t m field => ?_
  cases t with
  | name text => exact .pure _
  | _ => exact .reject (Blames.fieldName field rfl).rejects

/-- A call is rejected for its arguments. -/
theorem rejects_application {bound : Nat} (callee : Tree) (small : bound < n)
    (enough : i.length ≤ bound) :
    Rejecting (application bound nested callee) i (Rejects (.links callee) (.punct .leftParen :: i)) := by
  have short : i.length < n := Nat.lt_of_le_of_lt enough small
  have row := reads_arguments inner short enough
  exact .bind (reads_bracketed .arguments .argumentsClose row)
    (.asked .arguments (rejects_bracketed .arguments row (rejects_arguments inner rejects short enough)))
    fun all _ _ => .build _

/-- An index is rejected for what is in its brackets or for the closing one. -/
theorem rejects_subscript (target : Tree) (short : i.length < n) :
    Rejecting (subscript nested target) i (Rejects (.links target) (.punct .leftBracket :: i)) :=
  .needed (inner i short) (.asked .position (rejects i short))
    (fun absent => (Blames.subscriptIndex absent).rejects) fun _ _ position =>
      .expect (fun _ _ => .build _) fun missing => (Blames.subscriptClose position missing).rejects

/-- The induction is on the number of links, each of which is rejected as its kind is. -/
theorem rejects_links {bound : Nat} (small : bound ≤ n) (enough : i.length ≤ bound) (object : Tree) :
    Rejecting (links nested bound object) i (Rejects (.links object) i) := by
  induction bound generalizing i object with
  | zero => exact .pure _
  | succ bound ih =>
      have smaller : bound ≤ n := Nat.le_of_succ_le small
      refine .take? (fun t link m made input => ?_) fun _ => .pure _
      subst input
      have m_enough : m.length ≤ bound := Nat.le_of_succ_le_succ enough
      rcases link?_eq_some made with ⟨rfl, rfl⟩ | ⟨rfl, rfl⟩ | ⟨rfl, rfl⟩
      · refine .bind (reads_field inner smaller m_enough)
          (rejects_field inner rejects smaller m_enough object) fun field k h => ?_
        obtain ⟨text, rfl, h⟩ := h
        exact .built _ (.asked (.behindField h)
          (ih smaller (Nat.le_trans h.length_le m_enough) _))
      · refine .bind (reads_application inner object small m_enough)
          (rejects_application inner rejects object small m_enough) fun longer k h => ?_
        obtain ⟨all, h, rfl⟩ := h
        exact .asked (.behindArguments h) (ih smaller (Nat.le_trans h.length_le m_enough) _)
      · have m_short : m.length < n := Nat.lt_of_le_of_lt m_enough small
        refine .bind (reads_subscript inner object m_short)
          (rejects_subscript inner rejects object m_short) fun longer k h => ?_
        obtain ⟨position, h, rfl⟩ := h
        have shorter := h.length_lt
        rw [List.length_cons] at shorter
        exact .asked (.behindPosition h) (ih smaller (by omega) _)

/-- What stands first is rejected as a primary, and the links are when it is a name. -/
theorem rejects_chain {bound : Nat} (small : bound ≤ n) (enough : i.length ≤ bound) :
    Rejecting (chain bound nested) i (Rejects (.level .chain) i) := by
  refine .bind (reads_primary inner small enough)
    (.asked .first (rejects_primary inner rejects small enough)) fun found m first => ?_
  cases found with
  | none => exact .pure _
  | some t =>
      cases t with
      | name text =>
          have m_enough : m.length ≤ bound := Nat.le_trans first.length_le enough
          exact .bind (reads_links inner small m_enough _)
            (.asked (.links first) (rejects_links inner rejects small m_enough _)) fun _ _ _ => .pure _
      | _ => exact .pure _

/-!
### Operators
-/

/-- A sign or `not` needs an operand behind it. -/
theorem rejects_unary {bound : Nat} (small : bound ≤ n) (enough : i.length ≤ bound) :
    Rejecting (unary bound nested) i (Rejects (.level .unary) i) := by
  refine .take? (fun t op m made input => ?_) fun other => ?_
  · subst input
    obtain rfl := unaryOp?_eq_some.mp made
    have m_enough : m.length ≤ bound := Nat.le_of_succ_le enough
    exact .needed (reads_chain inner small m_enough)
      (.asked .prefixed (rejects_chain inner rejects small m_enough))
      (fun absent => (Blames.unaryOperand absent).rejects) fun operand _ _ => .built _ (.pure _)
  · simp only [isSome_unaryOp?] at other
    exact .asked (.plain other) (rejects_chain inner rejects small enough)

end

section

variable {n : Nat} {g : Grouping} {ω : Type} {op? : Terminal → Option ω}
  {node : ω → Tree → Tree → Tree} (same : ∀ t, Grouping.node? g t = (op? t).map node)
  {operand : Production}
  (reads_operand : ∀ i : List Terminal, i.length ≤ n → Parser.Reads operand i (Derives (.level g.operand) i))
  (rejects_operand : ∀ i : List Terminal, i.length ≤ n → Rejecting operand i (Rejects (.level g.operand) i))

include same reads_operand rejects_operand

/-- Each operator needs an operand behind it, and that is a phrase of the level below. -/
theorem rejects_moreOperands {bound : Nat} (small : bound ≤ n) (enough : i.length ≤ bound)
    (lhs : Option Tree) :
    Rejecting (moreOperands op? node operand g.unfinished bound lhs) i (Rejects (.operands g lhs) i) := by
  induction bound generalizing i lhs with
  | zero => exact .pure _
  | succ bound ih =>
      refine .take? (fun t op m made input => .leftOperand lhs ?_) fun _ => .pure _
      subst input
      have operator : Grouping.node? g t = some (node op) := by rw [same, made, Option.map_some]
      have m_enough : m.length ≤ bound := Nat.le_of_succ_le_succ enough
      have m_short : m.length ≤ n := Nat.le_trans m_enough (Nat.le_of_succ_le small)
      exact .needed (reads_operand m m_short) (.asked (.operand operator) (rejects_operand m m_short))
        (fun absent => (Blames.operand operator absent).rejects) fun rhs k right =>
          .built _ (.asked (.behindOperand operator right)
            (ih (Nat.le_of_succ_le small) (Nat.le_trans right.length_le m_enough) _))

/-- The first operand may be missing, the others may not. -/
theorem rejects_leftLevel {bound : Nat} (small : bound ≤ n) (enough : i.length ≤ bound) :
    Rejecting (leftLevel op? node operand g.unfinished bound) i (Rejects (.level (.grouping g)) i) :=
  .bind (reads_operand i (Nat.le_trans enough small))
    (.asked .leftmost (rejects_operand i (Nat.le_trans enough small))) fun first _ first_read =>
      .asked (.operands first_read) (rejects_moreOperands same reads_operand rejects_operand small
        (Nat.le_trans first_read.length_le enough) first)

end

section

variable {nested : Production} {n : Nat}
  (inner : ∀ i : List Terminal, i.length < n → Parser.Reads nested i (Derives expr i))
  (rejects : ∀ i : List Terminal, i.length < n → Rejecting nested i (Rejects expr i))

include inner rejects

theorem rejects_multiplicative (enough : i.length ≤ n) :
    Rejecting (multiplicative n nested) i (Rejects (.level (.grouping .product)) i) :=
  rejects_leftLevel node?_product (fun _ short => reads_unary inner (Nat.le_refl n) short)
    (fun _ short => rejects_unary inner rejects (Nat.le_refl n) short) (Nat.le_refl n) enough

theorem rejects_additive (enough : i.length ≤ n) :
    Rejecting (additive n nested) i (Rejects (.level (.grouping .sum)) i) :=
  rejects_leftLevel node?_sum (fun _ short => reads_multiplicative inner short)
    (fun _ short => rejects_multiplicative inner rejects short) (Nat.le_refl n) enough

/-- A comparison needs its right operand, and behind a `not` the word `in` in front of that. -/
theorem rejects_relational (enough : i.length ≤ n) :
    Rejecting (relational n nested) i (Rejects (.level (.comparing .order)) i) := by
  refine .bind (reads_additive inner enough) (.asked .compared (rejects_additive inner rejects enough))
    fun lhs m left => .take? (fun t op l made input => ?_) fun _ => .pure lhs
  subst input
  have m_le := left.length_le
  rw [List.length_cons] at m_le
  -- behind the operator, of one word or two, the right operand is needed
  have operands (k : List Terminal) (its_level : Comparing.of op = .order) (word : t :: l = op.terminals ++ k)
      (short : k.length ≤ n) : Rejecting (do
        let left ← leftOperand lhs
        let right ← require (additive n nested) .relationalOperand
        return some (← build (.relational op left right))) k (Rejects (.level (.comparing .order)) i) := by
    rw [word] at left
    exact .leftOperand lhs (.needed (reads_additive inner short)
      (.asked (.comparand its_level left) (rejects_additive inner rejects short))
      (fun absent => (Blames.comparand its_level left absent).rejects) fun right _ _ => .built _ (.pure _))
  by_cases two : op = .notMember
  · subst two
    obtain rfl : t = .keyword .kwNot := by
      unfold relationalOp? at made
      split at made <;> cases made
      rfl
    refine .expect (fun k input => ?_) fun missing => (Blames.inAfterNot left missing).rejects
    subst input
    rw [List.length_cons] at m_le
    exact operands k rfl rfl (by omega)
  · simp only [two, if_false]
    have ends : if op = .notMember then l = .keyword .kwIn :: l else l = l := by simp [two]
    obtain ⟨its_level, word⟩ := relationalOp?_iff.mp ⟨t, l, made, rfl, ends⟩
    exact operands l its_level word (by omega)

theorem rejects_equality (enough : i.length ≤ n) :
    Rejecting (equality n nested) i (Rejects (.level (.comparing .equality)) i) := by
  refine .bind (reads_relational inner enough) (.asked .compared (rejects_relational inner rejects enough))
    fun lhs m left => .take? (fun t op k made input => ?_) fun _ => .pure lhs
  obtain ⟨its_level, rfl⟩ := equalityOp?_iff.mp ⟨t, made, input⟩
  have m_le := left.length_le
  rw [List.length_append] at m_le
  have short : k.length ≤ n := by omega
  exact .leftOperand lhs (.needed (reads_relational inner short)
    (.asked (.comparand its_level left) (rejects_relational inner rejects short))
    (fun absent => (Blames.comparand its_level left absent).rejects) fun right _ _ => .built _ (.pure _))

theorem rejects_conjunction (enough : i.length ≤ n) :
    Rejecting (conjunction n nested) i (Rejects (.level (.grouping .and)) i) :=
  rejects_leftLevel node?_and (fun _ short => reads_equality inner short)
    (fun _ short => rejects_equality inner rejects short) (Nat.le_refl n) enough

theorem rejects_disjunction (enough : i.length ≤ n) :
    Rejecting (disjunction n nested) i (Rejects (.level (.grouping .or)) i) :=
  rejects_leftLevel node?_or (fun _ short => reads_conjunction inner short)
    (fun _ short => rejects_conjunction inner rejects short) (Nat.le_refl n) enough

/-- Behind the question mark two branches are needed, and a colon in between. -/
theorem rejects_conditional (enough : i.length ≤ n) :
    Rejecting (conditional n nested) i (Rejects (.level .conditional) i) := by
  refine .bind (reads_disjunction inner enough) (.asked .condition (rejects_disjunction inner rejects enough))
    fun condition m left => .accept (fun k input => .leftOperand condition ?_) fun _ => .pure condition
  subst input
  have m_le := left.length_le
  rw [List.length_cons] at m_le
  have short : k.length < n := by omega
  refine .needed (inner k short) (.asked (.thenBranch left) (rejects k short))
    (fun absent => (Blames.ternaryThen left absent).rejects) fun yes l middle =>
      .expect (fun k' input => ?_) fun missing => (Blames.ternaryColon left middle missing).rejects
  subst input
  have l_le := middle.length_le
  rw [List.length_cons] at l_le
  have short' : k'.length < n := by omega
  exact .needed (inner k' short') (.asked (.elseBranch left middle) (rejects k' short'))
    (fun absent => (Blames.ternaryElse left middle absent).rejects) fun no _ _ => .built _ (.pure _)

/-- An assignment is rejected for a target that is missing or no name, before its value is looked at. -/
theorem rejects_assignment (enough : i.length ≤ n) :
    Rejecting (assignment n nested) i (Rejects expr i) := by
  refine .bind (reads_conditional inner enough) (.asked .target (rejects_conditional inner rejects enough))
    fun lhs m left => .take? (fun t op k made input => ?_) fun _ => .pure lhs
  subst input
  obtain rfl := assignOp?_eq_some.mp made
  have m_le := left.length_le
  rw [List.length_cons] at m_le
  have short : k.length < n := by omega
  cases lhs with
  | none => exact .reject (Blames.assignmentTarget left (by simp)).rejects
  | some target =>
      cases target with
      | name text =>
          exact .needed (inner k short) (.asked (.value left) (rejects k short))
            (fun absent => (Blames.assignmentValue left absent).rejects) fun value _ _ => .built _ (.pure _)
      | _ => exact .rejected (Blames.assignmentTarget left (by simp)).rejects

end

/-- An expression of any bound that is no restriction is rejected for what the grammar blames. -/
theorem rejects_expression (bound : Nat) (enough : i.length ≤ bound) :
    Rejecting (expression bound) i (Rejects expr i) := by
  induction bound generalizing i with
  | zero => exact .pure _
  | succ bound ih =>
      exact rejects_assignment (fun i short => reads_expression bound (Nat.le_of_lt_succ short))
        (fun i short => ih (Nat.le_of_lt_succ short)) enough

/-!
### Bodies
-/

section

variable {statement : Production} {n : Nat}
  (reads_statement : ∀ i : List Terminal, i.length ≤ n → Parser.Reads statement i (Derives .statement i))
  (rejects_statement : ∀ i : List Terminal, i.length ≤ n → Rejecting statement i (Rejects .statement i))

include reads_statement rejects_statement

/-- Statements are rejected as one of them is. That there are no more of them is no reason. -/
theorem rejects_statements {bound : Nat} (small : bound ≤ n) (enough : i.length ≤ bound) :
    Rejecting (statements statement bound) i (Rejects .statements i) := by
  induction bound generalizing i with
  | zero => exact .pure _
  | succ bound ih =>
      have short : i.length ≤ n := Nat.le_trans enough small
      refine .bind (reads_statement i short) (.asked .statement (rejects_statement i short))
        fun found m one => ?_
      cases found with
      | none => exact .pure _
      | some first =>
          have shorter : m.length + 1 ≤ i.length := one.length_add_least
          have m_enough : m.length ≤ bound := by omega
          exact .bind (reads_statements reads_statement (Nat.le_of_succ_le small) m_enough)
            (.asked (.statements one) (ih (Nat.le_of_succ_le small) m_enough)) fun _ _ _ => .pure _

/-- A body may be empty, so it is rejected for the statements in it only. -/
theorem rejects_body {bound : Nat} (small : bound ≤ n) (enough : i.length ≤ bound) :
    Rejecting (body statement bound) i (Rejects .body i) := by
  refine .bind (reads_statements reads_statement small enough)
    (.asked .body (rejects_statements reads_statement rejects_statement small enough)) fun all m _ => ?_
  cases all with
  | nil => exact .build _
  | cons first others => exact .build _

end

/-!
### Statements
-/

/-- A variable is a name, and anything else in its place is blamed. -/
theorem rejects_loopVariable :
    Rejecting (require name .loopVariable) i (Rejects .loopVariables i) := by
  refine .require reads_name rejects_name fun o absent => ?_
  rcases absent with ⟨_, _, ⟨⟩⟩ | ⟨other, _, rfl⟩
  exact (Blames.loopVariable other).rejects

/-- Behind every comma there has to be one more variable. -/
theorem rejects_loopVariables {bound : Nat} (enough : i.length ≤ bound) :
    Rejecting (loopVariables bound) i (Rejects .loopVariables i) := by
  induction bound generalizing i with
  | zero => exact .bind reads_loopVariable rejects_loopVariable fun _ _ _ => .pure _
  | succ bound ih =>
      refine .bind reads_loopVariable rejects_loopVariable fun first m h =>
        .accept (fun k input => ?_) fun _ => .pure _
      obtain ⟨text, rfl, rfl⟩ := h
      subst input
      simp only [List.length_cons] at enough
      have k_enough : k.length ≤ bound := by omega
      exact .bind (reads_loopVariables k_enough) (.asked .nextVariables (ih k_enough)) fun _ _ _ => .pure _

section

variable {nested : Production} {inside : Parser Tree} {n : Nat}
  (reads_nested : ∀ i : List Terminal, i.length ≤ n → Parser.Reads nested i (Derives expr i))
  (reads_inside : ∀ i : List Terminal, i.length ≤ n → Parser.Reads inside i (Derives .body i))
  (rejects_nested : ∀ i : List Terminal, i.length ≤ n → Rejecting nested i (Rejects expr i))
  (rejects_inside : ∀ i : List Terminal, i.length ≤ n → Rejecting inside i (Rejects .body i))

include reads_nested reads_inside rejects_nested rejects_inside

/-- A clause needs a predicate. Its body may be empty. -/
theorem rejects_clause (short : i.length ≤ n) :
    Rejecting (clauses.clause nested inside) i (Rejects .clauses i) :=
  .needed (reads_nested i short) (.asked .predicate (rejects_nested i short))
    (fun absent => (Blames.predicate absent).rejects) fun _ m h =>
      have m_short : m.length ≤ n := Nat.le_trans h.length_le short
      .bind (reads_inside m m_short) (.asked (.clauseBody h) (rejects_inside m m_short))
        fun _ _ _ => .build _

/-- Behind every `elif` there has to be one more clause. -/
theorem rejects_clauses {bound : Nat} (small : bound ≤ n) (enough : i.length ≤ bound) :
    Rejecting (clauses nested inside bound) i (Rejects .clauses i) := by
  have reads_first := reads_clause reads_nested reads_inside (Nat.le_trans enough small)
  have rejects_first :=
    rejects_clause reads_nested reads_inside rejects_nested rejects_inside (Nat.le_trans enough small)
  induction bound generalizing i with
  | zero => exact .bind reads_first rejects_first fun _ _ _ => .pure _
  | succ bound ih =>
      refine .bind reads_first rejects_first fun first m h => .accept (fun k input => ?_) fun _ => .pure _
      obtain ⟨predicate, l, b, h, body, rfl⟩ := h
      subst input
      have shorter := h.length_lt
      have body_le := body.length_le
      rw [List.length_cons] at body_le
      have smaller : bound ≤ n := Nat.le_of_succ_le small
      have k_enough : k.length ≤ bound := by omega
      exact .bind (reads_clauses reads_nested reads_inside smaller k_enough)
        (.asked (.nextClauses h body) (ih smaller k_enough
          (reads_clause reads_nested reads_inside (Nat.le_trans k_enough smaller))
          (rejects_clause reads_nested reads_inside rejects_nested rejects_inside
            (Nat.le_trans k_enough smaller)))) fun _ _ _ => .pure _

/-- A conditional is rejected in its clauses, in its last branch or for the missing `endif`. -/
theorem rejects_choice {bound : Nat} (small : bound ≤ n) (enough : i.length ≤ bound) :
    Rejecting (choice nested inside bound) i (Rejects .statement (.keyword .kwIf :: i)) := by
  refine .bind (reads_clauses reads_nested reads_inside small enough) (.asked .clauses
    (rejects_clauses reads_nested reads_inside rejects_nested rejects_inside small enough))
    fun cs m h => ?_
  have m_short : m.length ≤ n := Nat.le_trans h.length_le (Nat.le_trans enough small)
  have rejects_otherwise : Rejecting (otherwise inside) m (Rejects .statement (.keyword .kwIf :: i)) := by
    refine .accept (fun k input => ?_) fun _ => .pure _
    subst input
    have k_short : k.length ≤ n := Nat.le_of_succ_le m_short
    exact .bind (reads_inside k k_short) (.asked (.otherwise h) (rejects_inside k k_short))
      fun _ _ _ => .pure _
  refine .bind (reads_otherwise reads_inside m_short) rejects_otherwise fun found k behind =>
    .expect (fun _ _ => .build _) fun missing => ?_
  rcases behind with ⟨l, b, rfl, body, rfl⟩ | ⟨plain, rfl, rfl⟩
  · exact (Blames.endifElse h body missing).rejects
  · exact (Blames.endif h plain missing).rejects

/-- A loop is rejected for its variables, its colon, what it runs over, its body or its `endforeach`. -/
theorem rejects_loop {bound : Nat} (small : bound ≤ n) (enough : i.length ≤ bound) :
    Rejecting (loop nested inside bound) i (Rejects .statement (.keyword .kwForeach :: i)) := by
  refine .bind (reads_loopVariables enough) (.asked .loopVariables (rejects_loopVariables enough))
    fun vars m names => .expect (fun k input => ?_) fun missing => (Blames.loopColon names missing).rejects
  subst input
  have m_le := names.length_le
  rw [List.length_cons] at m_le
  have k_short : k.length ≤ n := by omega
  refine .needed (reads_nested k k_short) (.asked (.iterable names) (rejects_nested k k_short))
    (fun absent => (Blames.loopIterable names absent).rejects) fun iterable l h => ?_
  have l_short : l.length ≤ n := Nat.le_trans h.length_le k_short
  exact .bind (reads_inside l l_short) (.asked (.loopBody names h) (rejects_inside l l_short))
    fun b _ body => .expect (fun _ _ => .build _) fun missing =>
      (Blames.endforeach names h body missing).rejects

end

/-- A statement of any bound that is no restriction is rejected for what the grammar blames. -/
theorem rejects_statement (bound : Nat) (enough : i.length ≤ bound) :
    Rejecting (statement bound) i (Rejects .statement i) := by
  induction bound generalizing i with
  | zero => exact .pure _
  | succ bound ih =>
      have reads_nested (i : List Terminal) (short : i.length ≤ bound) :
          Parser.Reads (expression bound) i (Derives expr i) :=
        reads_expression bound short
      have rejects_nested (i : List Terminal) (short : i.length ≤ bound) :
          Rejecting (expression bound) i (Rejects expr i) :=
        rejects_expression bound short
      have reads_one (i : List Terminal) (short : i.length ≤ bound) :
          Parser.Reads (statement bound) i (Derives .statement i) :=
        reads_statement bound short
      have reads_inside (i : List Terminal) (short : i.length ≤ bound) :
          Parser.Reads (body (statement bound) bound) i (Derives .body i) :=
        reads_body reads_one (Nat.le_refl bound) short
      have rejects_inside (i : List Terminal) (short : i.length ≤ bound) :
          Rejecting (body (statement bound) bound) i (Rejects .body i) :=
        rejects_body reads_one (fun i short => ih short) (Nat.le_refl bound) short
      refine .take? (fun t found m made input => ?_) fun other => ?_
      · subst input
        have short : m.length ≤ bound := Nat.le_of_succ_le_succ enough
        rcases opening?_eq_some made with ⟨rfl, rfl⟩ | ⟨rfl, rfl⟩ | ⟨rfl, rfl⟩ | ⟨rfl, rfl⟩
        · exact .bind (reads_choice reads_nested reads_inside (Nat.le_refl bound) short)
            (rejects_choice reads_nested reads_inside rejects_nested rejects_inside (Nat.le_refl bound)
              short) fun _ _ _ => .pure _
        · exact .bind (reads_loop reads_nested reads_inside (Nat.le_refl bound) short)
            (rejects_loop reads_nested reads_inside rejects_nested rejects_inside (Nat.le_refl bound)
              short) fun _ _ _ => .pure _
        · exact .built _ (.pure _)
        · exact .built _ (.pure _)
      · simp only [isSome_opening?] at other
        exact .asked (.expression other) (rejects_expression (bound + 1) enough)

/-!
### Programs
-/

/-- A program is rejected in its body, or for the first terminal that is left behind it. -/
theorem rejects_program : Rejecting (program i.length) i (Refused i) := by
  have reads_one (j : List Terminal) (short : j.length ≤ i.length) :
      Parser.Reads (statement i.length) j (Derives .statement j) :=
    reads_statement _ short
  refine .bind (reads_body reads_one (Nat.le_refl _) (Nat.le_refl _))
    ((rejects_body reads_one (fun _ short => rejects_statement _ short) (Nat.le_refl _)
      (Nat.le_refl _)).mono fun _ _ => .inside) fun t m h => .peek ?_
  cases m with
  | nil => exact .pure t
  | cons next rest => exact .reject (.behind h)

end Grammar

end BuildScript
