/-
Module: BuildScript.Proofs.Grammar.Recognition
Layer: proofs about the grammar
Purpose: The productions of expressions find exactly what the grammar derives. Each production is followed
  once, on an input no longer than its bound, and the expressions inside it are taken to be read as they
  should be on any shorter input; the derivations that a production can have made are then compared with
  those that there are.
Main exports: reads_expression
-/
import BuildScript.Proofs.Grammar.Exact

namespace BuildScript.Grammar

open BuildScript.Parser

variable {i o : List Terminal}

/-!
### Rows
-/

/-- What a row that ends in front of `i` leaves: a comma may stand in front of its bracket. -/
def RowEnds (close : Punct) (i o : List Terminal) : Prop :=
  (Starts (· == .punct .comma) i = false ∧ o = i) ∨
    ∃ rest, i = .punct .comma :: .punct close :: rest ∧ o = .punct close :: rest

/-- A row goes on when behind its comma there is anything but the closing bracket. -/
theorem reads_continues (close : Punct) :
    Reads (continues close) i fun more o =>
      if more then i = .punct .comma :: o ∧ Starts (· == .punct close) o = false
      else RowEnds close i o := by
  refine .congr (.accept (fun m _ => .peek (.pure _)) fun _ => .pure false) fun more o => ?_
  constructor
  · intro h
    rcases h with ⟨m, rfl, rfl, rfl⟩ | ⟨other, rfl, rfl⟩
    · cases o with
      | nil => exact ⟨rfl, rfl⟩
      | cons next rest =>
          by_cases same : next = .punct close
          · subst same
            simp [RowEnds]
          · simp [same, Starts]
    · exact .inl ⟨other, rfl⟩
  · cases more with
    | true =>
        intro h
        obtain ⟨rfl, other⟩ := h
        refine .inl ⟨o, rfl, ?_, rfl⟩
        cases o with
        | nil => rfl
        | cons next rest => simpa [Starts] using other
    | false =>
        intro h
        rcases h with ⟨other, rfl⟩ | ⟨rest, rfl, rfl⟩
        · exact .inr ⟨other, rfl, rfl⟩
        · exact .inl ⟨_, rfl, by simp, rfl⟩

/-- What a row is, told by its first element and what stands behind that. -/
theorem derives_row {row : Row} {only : Bool} {all : List row.Element} :
    Derives (.row row only) i all o ↔ ∃ first m, Derives (.element row only) i first m ∧
      ((∃ n, (m = .punct .comma :: n ∧ Starts (· == .punct row.close) n = false) ∧
          ∃ others, Derives (.row row (row.isKeyword first)) n others o ∧ all = first :: others) ∨
        RowEnds row.close m o ∧ all = [first]) := by
  constructor
  · intro h
    cases h with
    | last element ends => exact ⟨_, _, element, .inr ⟨.inl ⟨ends, rfl⟩, rfl⟩⟩
    | trailing element => exact ⟨_, _, element, .inr ⟨.inr ⟨_, rfl, rfl⟩, rfl⟩⟩
    | more element goes_on elements =>
        exact ⟨_, _, element, .inl ⟨_, ⟨rfl, goes_on⟩, _, elements, rfl⟩⟩
  · intro h
    rcases h with ⟨first, m, element, ⟨n, ⟨rfl, goes_on⟩, others, elements, rfl⟩ |
      ⟨⟨ends, rfl⟩ | ⟨rest, rfl, rfl⟩, rfl⟩⟩
    · exact .more element goes_on elements
    · exact .last element ends
    · exact .trailing element

/-- Rows of any kind: `element` is the production of an element, and `all` that of the row. -/
theorem reads_row (row : Row) {n : Nat} (element : Bool → Parser row.Element)
    (all : Nat → Bool → Parser (List row.Element))
    (all_zero : ∀ only, all 0 only = do return [← element only])
    (all_succ : ∀ bound only, all (bound + 1) only = do
      let first ← element only
      if ← continues row.close then
        let others ← all bound (row.isKeyword first)
        return first :: others
      else return [first])
    (helement : ∀ only (i : List Terminal), i.length < n →
      Reads (element only) i (Derives (.element row only) i))
    (bound : Nat) (only : Bool) (short : i.length < n) (enough : i.length ≤ bound) :
    Reads (all bound only) i (Derives (.row row only) i) := by
  have takes : ∀ {first m}, Derives (.element row only) i first m → m.length < i.length :=
    fun h => h.length_add_least
  induction bound generalizing i only with
  | zero =>
      rw [all_zero]
      apply Reads.congr (.bind (helement only i short) fun first m _ => .pure _)
      intro found o
      rw [derives_row]
      constructor
      · intro h
        obtain ⟨first, m, h, _⟩ := h
        exact absurd (takes h) (by omega)
      · intro h
        obtain ⟨first, m, h, _⟩ := h
        exact absurd (takes h) (by omega)
  | succ bound ih =>
      rw [all_succ]
      refine .congr (.bind (helement only i short) fun first m taken =>
        .bool (reads_continues row.close)
          (fun n goes_on => .bind (ih _ ?_ ?_ fun h => h.length_add_least) fun others o _ => .pure _)
          fun n _ => .pure _) fun found o => ?_
      · have shorter := takes taken
        have comma : m.length = n.length + 1 := by rw [goes_on.1, List.length_cons]
        omega
      · have shorter := takes taken
        have comma : m.length = n.length + 1 := by rw [goes_on.1, List.length_cons]
        omega
      · rw [derives_row]
        constructor
        · intro h
          rcases h with ⟨first, m, element, ⟨n, goes_on, others, _, elements, rfl, rfl⟩ |
            ⟨n, ends, rfl, rfl⟩⟩
          · exact ⟨first, m, element, .inl ⟨n, goes_on, others, elements, rfl⟩⟩
          · exact ⟨first, m, element, .inr ⟨ends, rfl⟩⟩
        · intro h
          rcases h with ⟨first, m, element, ⟨n, goes_on, others, elements, rfl⟩ | ⟨ends, rfl⟩⟩
          · exact ⟨first, m, element, .inl ⟨n, goes_on, others, o, elements, rfl, rfl⟩⟩
          · exact ⟨first, m, element, .inr ⟨o, ends, rfl, rfl⟩⟩

/-- Rows between brackets, the opening one of which has been read. -/
theorem reads_bracketed (row : Row) {all : Parser (List row.Element)} (unclosed : SyntaxError)
    (hall : Reads all i (Derives (.row row false) i)) :
    Reads (bracketed row.close unclosed all) i (Derives (.bracketed row) i) := by
  refine .congr (.accept (fun m _ => .pure []) fun _ => .bind hall fun found m _ =>
    .expect fun o _ => .pure found) fun found o => ?_
  constructor
  · intro h
    rcases h with ⟨m, rfl, rfl, rfl⟩ | ⟨other, found, _, elements, m, rfl, rfl, rfl⟩
    · exact .nothing
    · exact .something other elements
  · intro h
    cases h with
    | nothing => exact .inl ⟨o, rfl, rfl, rfl⟩
    | something other elements => exact .inr ⟨other, found, _, elements, o, rfl, rfl, rfl⟩

/-!
### Primaries and chains
-/

/-- The terminals that are names. -/
def isNameTerminal (t : Terminal) : Bool :=
  (name? t).isSome

/-- A name is found where its terminal is, and otherwise nothing is taken. -/
theorem reads_name :
    Reads name i fun found o => (∃ text, i = .name text :: o ∧ found = some (.name text)) ∨
      (Starts isNameTerminal i = false ∧ found = none ∧ o = i) := by
  refine .congr (.take? (fun t text m _ _ => .after (.build _) (.pure _)) fun _ => .pure none)
    fun found o => ?_
  constructor
  · intro h
    rcases h with ⟨t, text, m, made, rfl, rfl, rfl⟩ | ⟨other, rfl, rfl⟩
    · cases t <;> cases made
      exact .inl ⟨_, rfl, rfl⟩
    · exact .inr ⟨other, rfl, rfl⟩
  · intro h
    rcases h with ⟨text, rfl, rfl⟩ | ⟨other, rfl, rfl⟩
    · exact .inl ⟨_, _, _, rfl, rfl, rfl, rfl⟩
    · exact .inr ⟨other, rfl, rfl⟩

/-- A literal is read where its terminal is a primary of that literal only. -/
theorem reads_literal {first : Terminal} {t : Tree} (next : i.head? = some first)
    (derived : ∀ {o}, Derives (.level .primary) (first :: o) (some t) o)
    (unique : ∀ {m found o}, Derives (.level .primary) (first :: m) found o → found = some t ∧ o = m) :
    Reads (literal t) i (Derives (.level .primary) i) := by
  obtain ⟨m, rfl⟩ := List.head?_eq_some_iff.mp next
  refine .congr (.skip (.after (.build _) (.pure _))) fun found o => ⟨?_, unique⟩
  intro h
  obtain ⟨rfl, rfl⟩ := h
  exact derived

/-- A row in brackets, the first of which is a terminal that begins nothing else. -/
theorem reads_enclosed {first : Terminal} (row : Row) {all : Parser (List row.Element)}
    {node : List row.Element → Tree} {unclosed : SyntaxError} {m : List Terminal}
    (hall : Reads all m (Derives (.row row false) m))
    (derived : ∀ {es o}, Derives (.bracketed row) m es o →
      Derives (.level .primary) (first :: m) (some (node es)) o)
    (unique : ∀ {found o}, Derives (.level .primary) (first :: m) found o →
      ∃ es, Derives (.bracketed row) m es o ∧ found = some (node es)) :
    Reads (do
      skip
      let es ← bracketed row.close unclosed all
      return some (← build (node es))) (first :: m) (Derives (.level .primary) (first :: m)) := by
  refine .congr (.skip (.bind (reads_bracketed row unclosed hall) fun es k _ =>
    .after (.build _) (.pure _))) fun found o => ?_
  constructor
  · intro h
    obtain ⟨es, _, h, rfl, rfl⟩ := h
    exact derived h
  · intro h
    obtain ⟨es, elements, rfl⟩ := unique h
    exact ⟨es, o, elements, rfl, rfl⟩

/-- A name is the only primary left in front of a terminal that begins no other. -/
theorem reads_namePrimary
    (other : ∀ t, i.head? = some t → beginsPrimary t = true → isNameTerminal t = true) :
    Reads name i (Derives (.level .primary) i) := by
  apply Reads.congr reads_name
  intro found o
  constructor
  · intro h
    rcases h with ⟨text, rfl, rfl⟩ | ⟨noName, rfl, rfl⟩
    · exact .name
    · apply Derives.absent
      cases o with
      | nil => rfl
      | cons t rest =>
          simp only [Starts] at noName ⊢
          exact Bool.eq_false_iff.mpr fun begins => by simp [other t rfl begins] at noName
  · intro h
    cases h with
    | absent none =>
        refine .inr ⟨?_, rfl, rfl⟩
        cases i with
        | nil => rfl
        | cons t rest => cases t <;> simp_all [Starts, beginsPrimary, isNameTerminal, name?]
    | name => exact .inl ⟨_, rfl, rfl⟩
    | _ => cases other _ rfl rfl

section

variable {nested : Production} {n : Nat}
  (inner : ∀ i : List Terminal, i.length < n → Reads nested i (Derives expr i))

include inner

/-- An item of an array is any expression. -/
theorem reads_item (short : i.length < n) (only : Bool) (cause : SyntaxError) :
    Reads (require nested cause) i (Derives (.element .items only) i) := by
  apply Reads.congr (.require (inner i short) cause)
  intro t o
  constructor
  · exact .item
  · intro h
    cases h with
    | item h => exact h

/-- An entry is two expressions and a colon between them. -/
theorem reads_entry (short : i.length < n) (only : Bool) :
    Reads (entry nested) i (Derives (.element .entries only) i) := by
  refine .congr (.bind (.require (inner i short) _) fun key m left => .expect fun m' input =>
    .bind (.require (inner m' ?_) _) fun value o _ => .build _) fun t o => ?_
  · have left_le := left.length_le
    subst input
    simp at left_le
    omega
  · constructor
    · intro h
      obtain ⟨key, _, left, m, rfl, value, _, right, rfl, rfl⟩ := h
      exact .entry left right
    · intro h
      cases h with
      | entry left right => exact ⟨_, _, left, _, rfl, _, _, right, rfl, rfl⟩

theorem reads_items {bound : Nat} (short : i.length < n) (enough : i.length ≤ bound) :
    Reads (elements .rightBracket (require nested .arrayItem) bound) i (Derives (.row .items false) i) :=
  reads_row .items (fun _ => require nested .arrayItem)
    (fun bound _ => elements .rightBracket (require nested .arrayItem) bound)
    (fun _ => rfl) (fun _ _ => rfl) (fun only _ short => reads_item inner short only _)
    bound false short enough

theorem reads_entries {bound : Nat} (short : i.length < n) (enough : i.length ≤ bound) :
    Reads (elements .rightBrace (entry nested) bound) i (Derives (.row .entries false) i) :=
  reads_row .entries (fun _ => entry nested)
    (fun bound _ => elements .rightBrace (entry nested) bound)
    (fun _ => rfl) (fun _ _ => rfl) (fun only _ short => reads_entry inner short only)
    bound false short enough

/-- The terminal that comes next tells which of the rules for primaries can apply, and in each case only one
    can. -/
theorem reads_primary {bound : Nat} (small : bound ≤ n) (enough : i.length ≤ bound) :
    Reads (primary bound nested) i (Derives (.level .primary) i) := by
  refine .peek ?_
  split
  · rename_i next
    obtain ⟨m, rfl⟩ := List.head?_eq_some_iff.mp next
    refine .congr (.skip (.bind (.require (inner m (Nat.lt_of_lt_of_le enough small)) _) fun t k _ =>
      .expect fun o _ => .pure _))
      fun found o => ?_
    constructor
    · intro h
      obtain ⟨t, _, h, m, rfl, rfl, rfl⟩ := h
      exact .parenthesized h
    · intro h
      cases h with
      | absent other => cases other
      | parenthesized h => exact ⟨_, _, h, _, rfl, rfl, rfl⟩
  · rename_i next
    obtain ⟨m, rfl⟩ := List.head?_eq_some_iff.mp next
    have row := reads_items inner (Nat.lt_of_lt_of_le enough small) (Nat.le_of_succ_le enough)
    refine reads_enclosed .items row .array fun h => ?_
    cases h with
    | absent other => cases other
    | array h => exact ⟨_, h, rfl⟩
  · rename_i next
    obtain ⟨m, rfl⟩ := List.head?_eq_some_iff.mp next
    have row := reads_entries inner (Nat.lt_of_lt_of_le enough small) (Nat.le_of_succ_le enough)
    refine reads_enclosed .entries row .dictionary fun h => ?_
    cases h with
    | absent other => cases other
    | dictionary h => exact ⟨_, h, rfl⟩
  · rename_i next
    refine reads_literal next .truth fun h => ?_
    cases h with
    | absent other => cases other
    | truth => exact ⟨rfl, rfl⟩
  · rename_i next
    refine reads_literal next .falsehood fun h => ?_
    cases h with
    | absent other => cases other
    | falsehood => exact ⟨rfl, rfl⟩
  · rename_i value? next
    cases value? with
    | some value =>
        refine reads_literal next .number fun h => ?_
        cases h with
        | absent other => cases other
        | number => exact ⟨rfl, rfl⟩
    | none =>
        obtain ⟨m, rfl⟩ := List.head?_eq_some_iff.mp next
        refine .congr (.reject _) fun found o => ⟨False.elim, fun h => ?_⟩
        cases h with
        | absent other => cases other
  · rename_i content next
    refine reads_literal next .string fun h => ?_
    cases h with
    | absent other => cases other
    | string => exact ⟨rfl, rfl⟩
  · rename_i paren bracket brace yes no number string
    apply reads_namePrimary
    intro t next begins
    cases t with
    | keyword word =>
        cases word with
        | kwTrue => exact absurd next yes
        | kwFalse => exact absurd next no
        | _ => cases begins
    | punct sign =>
        cases sign with
        | leftParen => exact absurd next paren
        | leftBracket => exact absurd next bracket
        | leftBrace => exact absurd next brace
        | _ => cases begins
    | name text => rfl
    | number value => exact absurd next (number value)
    | string content => exact absurd next (string content)
    | invalid => cases begins

/-- Of the primaries a name is the only one that may stand behind a dot. -/
theorem reads_field {bound : Nat} (small : bound ≤ n) (enough : i.length ≤ bound) :
    Reads (field bound nested) i fun t o =>
      ∃ text, t = .name text ∧ Derives (.level .primary) i (some (.name text)) o := by
  refine .congr (.bind (E := fun t m found o => ∃ text, t = .name text ∧ found = t ∧ o = m)
    (.require (reads_primary inner small enough) _) fun t m _ => ?_) fun t o => ?_
  · cases t with
    | name text => exact .congr (.pure _) fun found o => by simp
    | _ => exact .congr (.reject _) fun found o => by simp
  · constructor
    · intro h
      obtain ⟨_, _, h, text, rfl, rfl, rfl⟩ := h
      exact ⟨text, rfl, h⟩
    · intro h
      obtain ⟨text, rfl, h⟩ := h
      exact ⟨_, _, h, text, rfl, rfl, rfl⟩

/-- An argument is an expression, or a name with a colon and an expression behind it. Once there has been a
    keyword only the second is left. -/
theorem reads_argument (short : i.length < n) (only : Bool) :
    Reads (argument nested only) i (Derives (.element .arguments only) i) := by
  refine .congr (.bind (.require (inner i short) _) fun arg m h =>
    .accept (E := fun k found o => ∃ text value, arg = .name text ∧
        Derives expr k (some value) o ∧ found = Argument.keyword (.keywordArg arg value))
      (N := fun found o => only = false ∧ found = Argument.positional arg ∧ o = m)
      (fun k input => ?_) fun other => ?_) fun found o => ?_
  · have shorter := h.length_lt
    subst input
    simp only [List.length_cons] at shorter
    cases arg with
    | name text =>
        refine .congr (.bind (.require (inner k (by omega)) _) fun value m _ => .after (.build _) (.pure _))
          fun found o => ?_
        constructor
        · intro h
          obtain ⟨value, _, right, rfl, rfl⟩ := h
          exact ⟨text, value, rfl, right, rfl⟩
        · intro h
          obtain ⟨text, value, _, right, rfl⟩ := h
          exact ⟨value, o, right, rfl, rfl⟩
    | _ => exact .congr .rejected fun found o => by simp
  · cases only with
    | true => exact .congr (.reject _) fun found o => by simp
    | false => exact .congr (.pure _) fun found o => by simp
  · constructor
    · intro h
      rcases h with ⟨_, _, h, ⟨m, rfl, text, value, rfl, right, rfl⟩ | ⟨other, rfl, rfl, rfl⟩⟩
      · exact .keyword h right
      · exact .positional h other
    · intro h
      cases h with
      | positional value plain => exact ⟨_, _, value, .inr ⟨plain, rfl, rfl, rfl⟩⟩
      | keyword key right => exact ⟨_, _, key, .inl ⟨_, rfl, _, _, rfl, right, rfl⟩⟩

theorem reads_arguments {bound : Nat} (short : i.length < n) (enough : i.length ≤ bound) :
    Reads (arguments nested bound false) i (Derives (.row .arguments false) i) :=
  reads_row .arguments (argument nested) (arguments nested) (fun _ => rfl) (fun _ _ => rfl)
    (fun only _ short => reads_argument inner short only) bound false short enough

/-- A call is a row of arguments in parentheses, with positional and keyword arguments sorted apart. -/
theorem reads_application {bound : Nat} (callee : Tree) (small : bound < n)
    (enough : i.length ≤ bound) :
    Reads (application bound nested callee) i fun t o =>
      ∃ all, Derives (.bracketed .arguments) i all o ∧
        t = .application callee (all.filterMap Argument.positional?)
          (all.filterMap Argument.keyword?) := by
  have row := reads_arguments inner (Nat.lt_of_le_of_lt enough small) enough
  refine .congr (.bind (reads_bracketed .arguments .argumentsClose row) fun all m _ => .build _)
    fun t o => ?_
  constructor
  · intro h
    obtain ⟨all, _, h, rfl, rfl⟩ := h
    exact ⟨all, h, rfl⟩
  · intro h
    obtain ⟨all, h, rfl⟩ := h
    exact ⟨all, o, h, rfl, rfl⟩

/-- An index is one expression in brackets. -/
theorem reads_subscript (target : Tree) (short : i.length < n) :
    Reads (subscript nested target) i fun t o =>
      ∃ position, Derives expr i (some position) (.punct .rightBracket :: o) ∧
        t = .index target position := by
  refine .congr (.bind (.require (inner i short) _) fun position m _ => .expect fun o _ => .build _)
    fun t o => ?_
  constructor
  · intro h
    obtain ⟨position, _, h, _, rfl, rfl, rfl⟩ := h
    exact ⟨position, h, rfl⟩
  · intro h
    obtain ⟨position, h, rfl⟩ := h
    exact ⟨position, _, h, o, rfl, rfl, rfl⟩

omit inner in
/-- Each kind of link has a punctuation mark of its own in front. -/
theorem link?_eq_some {t : Terminal} {link : Link} (made : link? t = some link) :
    (t = .punct .dot ∧ link = .member) ∨ (t = .punct .leftParen ∧ link = .call) ∨
      (t = .punct .leftBracket ∧ link = .index) := by
  unfold link? at made
  split at made <;> cases made <;> simp

omit inner in
/-- A link is taken exactly where the grammar has one begin. -/
theorem isSome_link? (t : Terminal) : (link? t).isSome = beginsLink t := by
  cases t with
  | punct sign => cases sign <;> rfl
  | _ => rfl

omit inner in
/-- In front of what begins no link a chain ends. -/
theorem reads_chainEnd (ends : Starts beginsLink i = false) (object : Tree) :
    Reads (pure object) i (Derives (.links object) i) := by
  apply Reads.congr (.pure _)
  intro t o
  constructor
  · intro h
    obtain ⟨rfl, rfl⟩ := h
    exact .chainEnd ends
  · intro h
    cases h with
    | chainEnd => exact ⟨rfl, rfl⟩
    | _ => cases ends

/-- The loop goes on for as long as there is a link, just as the grammar has the chain be as long as it can. -/
theorem reads_links {bound : Nat} (small : bound ≤ n) (enough : i.length ≤ bound) (object : Tree) :
    Reads (links nested bound object) i (Derives (.links object) i) := by
  induction bound generalizing i object with
  | zero =>
      obtain rfl := List.length_eq_zero_iff.mp (Nat.le_zero.mp enough)
      exact reads_chainEnd rfl object
  | succ bound ih =>
      refine .take?_same (fun t link m made input => ?_) fun other => ?_
      · subst input
        simp only [List.length_cons] at enough
        rcases link?_eq_some made with ⟨rfl, rfl⟩ | ⟨rfl, rfl⟩ | ⟨rfl, rfl⟩
        · have field := reads_field inner (Nat.le_of_succ_le small) (Nat.le_of_succ_le_succ enough)
          refine .congr (.bind field fun field k h =>
            .after (.build _) (ih (Nat.le_of_succ_le small) ?_ _)) fun t o => ?_
          · obtain ⟨_, rfl, h⟩ := h
            have shorter := h.length_lt
            omega
          · constructor
            · intro h
              obtain ⟨_, k, ⟨text, rfl, h⟩, more⟩ := h
              exact .member h more
            · intro h
              cases h with
              | chainEnd ends => simp [Starts, beginsLink] at ends
              | member h more => exact ⟨_, _, ⟨_, rfl, h⟩, more⟩
        · refine .congr (.bind (reads_application inner object small (Nat.le_of_succ_le_succ enough))
            fun longer k h => ih (Nat.le_of_succ_le small) ?_ _) fun t o => ?_
          · obtain ⟨_, h, -⟩ := h
            have shorter := h.length_le
            omega
          · constructor
            · intro h
              obtain ⟨_, k, ⟨all, h, rfl⟩, more⟩ := h
              exact .call h more
            · intro h
              cases h with
              | chainEnd ends => simp [Starts, beginsLink] at ends
              | call h more => exact ⟨_, _, ⟨_, h, rfl⟩, more⟩
        · have subscript := reads_subscript inner object (Nat.lt_of_lt_of_le enough small)
          refine .congr (.bind subscript fun longer k h => ih (Nat.le_of_succ_le small) ?_ _) fun t o => ?_
          · obtain ⟨_, h, -⟩ := h
            have shorter := h.length_lt
            simp only [List.length_cons] at shorter
            omega
          · constructor
            · intro h
              obtain ⟨_, k, ⟨position, h, rfl⟩, more⟩ := h
              exact .index h more
            · intro h
              cases h with
              | chainEnd ends => simp [Starts, beginsLink] at ends
              | index h more => exact ⟨_, _, ⟨_, h, rfl⟩, more⟩
      · simp only [isSome_link?] at other
        exact reads_chainEnd other object

/-- What a primary comes to at the level of chains: with links behind it if it is a name, else alone. -/
def ChainFrom : Tree → List Terminal → Option Tree → List Terminal → Prop
  | .name text, m, found, o =>
      ∃ longer, Derives (.links (.name text)) m longer o ∧ found = some longer
  | t, m, found, o => t.isName = false ∧ found = some t ∧ o = m

/-- Only a name has links behind it. A primary of another kind is all of the chain. -/
theorem reads_chain {bound : Nat} (small : bound ≤ n) (enough : i.length ≤ bound) :
    Reads (chain bound nested) i (Derives (.level .chain) i) := by
  refine .congr (.option (E := ChainFrom)
    (reads_primary inner small enough) (fun m _ => .pure none) fun t m h => ?_) fun found o => ?_
  · cases t with
    | name text =>
        have shorter := h.length_le
        apply Reads.congr (.bind (reads_links inner small (by omega) _) fun longer k _ => .pure _)
        intro found o
        constructor
        · intro h
          obtain ⟨longer, _, more, rfl, rfl⟩ := h
          exact ⟨longer, more, rfl⟩
        · intro h
          obtain ⟨longer, more, rfl⟩ := h
          exact ⟨longer, o, more, rfl, rfl⟩
    | _ => exact .congr (.pure _) fun found o => by simp [ChainFrom, Tree.isName]
  · constructor
    · intro h
      rcases h with ⟨_, h, rfl, rfl⟩ | ⟨t, m, h, more⟩
      · exact .noChain h
      · cases t with
        | name text =>
            obtain ⟨longer, more, rfl⟩ := more
            exact .chain h more
        | _ =>
            obtain ⟨other, rfl, rfl⟩ := more
            exact .single h other
    · intro h
      cases h with
      | noChain first => exact .inl ⟨_, first, rfl, rfl⟩
      | @single _ _ t first other =>
          refine .inr ⟨_, _, first, ?_⟩
          cases t with
          | name text => simp [Tree.isName] at other
          | _ => exact ⟨rfl, rfl, rfl⟩
      | chain first more => exact .inr ⟨_, _, first, _, more, rfl⟩

/-!
### Operators
-/

omit inner in
/-- A prefix is taken exactly where the grammar has one begin. -/
theorem isSome_unaryOp? (t : Terminal) : (unaryOp? t).isSome = isPrefixOp t := by
  cases t with
  | keyword word => cases word <;> rfl
  | punct sign => cases sign <;> rfl
  | _ => rfl

omit inner in
theorem unaryOp?_eq_some {t : Terminal} {op : PrefixOp} : unaryOp? t = some op ↔ t = op.terminal := by
  constructor
  · intro made
    unfold unaryOp? at made
    split at made <;> cases made <;> rfl
  · rintro rfl
    cases op <;> rfl

omit inner in
theorem PrefixOp.terminal_injective {op op' : PrefixOp} (same : op.terminal = op'.terminal) :
    op = op' := by
  have made : unaryOp? op.terminal = some op := unaryOp?_eq_some.mpr rfl
  rw [same, unaryOp?_eq_some.mpr rfl] at made
  exact Option.some.inj made.symm

/-- In front of a chain there is at most one sign or `not`. -/
theorem reads_unary {bound : Nat} (small : bound ≤ n) (enough : i.length ≤ bound) :
    Reads (unary bound nested) i (Derives (.level .unary) i) := by
  refine .take?_same (fun t op m made input => ?_) fun other => ?_
  · obtain rfl := unaryOp?_eq_some.mp made
    subst input
    have chain := reads_chain inner small (Nat.le_of_succ_le enough)
    refine .congr (.bind (.require chain _) fun operand k _ => .after (.build _) (.pure _))
      fun found o => ?_
    constructor
    · intro h
      obtain ⟨operand, _, h, rfl, rfl⟩ := h
      exact .prefixed h
    · generalize read : op.terminal :: m = input
      intro h
      cases h with
      | noPrefix plain operand =>
          subst read
          cases op <;> simp [Starts, PrefixOp.terminal, isPrefixOp] at plain
      | prefixed h =>
          simp only [List.cons.injEq] at read
          obtain ⟨same, rfl⟩ := read
          obtain rfl := PrefixOp.terminal_injective same
          exact ⟨_, _, h, rfl, rfl⟩
  · simp only [isSome_unaryOp?] at other
    apply Reads.congr (reads_chain inner small enough)
    intro found o
    constructor
    · exact .noPrefix other
    · intro h
      cases h with
      | noPrefix _ operand => exact operand
      | @prefixed op _ _ _ _ => cases op <;> simp [Starts, PrefixOp.terminal, isPrefixOp] at other

end

/-- The operators of the level are those of the grammar, and so are the trees that they make. -/
theorem node?_product (t : Terminal) :
    Grouping.node? .product t = (multiplicativeOp? t).map Tree.arithmetic := by
  cases t with
  | punct sign => cases sign <;> rfl
  | _ => rfl

theorem node?_sum (t : Terminal) : Grouping.node? .sum t = (additiveOp? t).map Tree.arithmetic := by
  cases t with
  | punct sign => cases sign <;> rfl
  | _ => rfl

theorem node?_and (t : Terminal) : Grouping.node? .and t = (logicalOp? .and t).map Tree.logical := by
  cases t with
  | keyword word => cases word <;> rfl
  | _ => rfl

theorem node?_or (t : Terminal) : Grouping.node? .or t = (logicalOp? .or t).map Tree.logical := by
  cases t with
  | keyword word => cases word <;> rfl
  | _ => rfl

section

variable {n : Nat} {g : Grouping} {ω : Type} {op? : Terminal → Option ω}
  {node : ω → Tree → Tree → Tree} (same : ∀ t, Grouping.node? g t = (op? t).map node)
  {operand : Production} (unfinished : SyntaxError)
  (reads_operand : ∀ i : List Terminal, i.length ≤ n → Reads operand i (Derives (.level g.operand) i))

include same reads_operand

/-- The loop goes on for as long as there is an operator. What has been read is the left operand of the next. -/
theorem reads_moreOperands {bound : Nat} (small : bound ≤ n) (enough : i.length ≤ bound)
    (lhs : Option Tree) :
    Reads (moreOperands op? node operand unfinished bound lhs) i (Derives (.operands g lhs) i) := by
  have ends_iff : Starts (fun t => (op? t).isSome) i = Starts (fun t => (Grouping.node? g t).isSome) i := by
    simp [same]
  induction bound generalizing i lhs with
  | zero =>
      obtain rfl := List.length_eq_zero_iff.mp (Nat.le_zero.mp enough)
      apply Reads.congr (.pure _)
      intro t o
      constructor
      · intro h
        obtain ⟨rfl, rfl⟩ := h
        exact .operandsEnd rfl
      · intro h
        cases h
        exact ⟨rfl, rfl⟩
  | succ bound ih =>
      refine .take?_same (fun t op m made input => ?_) fun other => ?_
      · subst input
        have its_node : Grouping.node? g t = some (node op) := by rw [same, made, Option.map_some]
        refine .congr (.after (.leftOperand lhs) (.bind (.require (reads_operand m ?_) _) fun rhs k right =>
          .after (.build _) (ih (Nat.le_of_succ_le small) ?_ _ ?_))) fun found o => ?_
        · exact Nat.le_of_succ_le (Nat.le_trans enough small)
        · have shorter := right.length_lt
          simp only [List.length_cons] at enough
          omega
        · simp [same]
        · constructor
          · intro h
            obtain ⟨rhs, k, right, others⟩ := h
            exact .operand its_node right others
          · intro h
            cases h with
            | operandsEnd ends => simp [Starts, its_node] at ends
            | operand operator right others =>
                rw [its_node] at operator
                cases operator
                exact ⟨_, _, right, others⟩
      · apply Reads.congr (.pure _)
        intro found o
        rw [ends_iff] at other
        constructor
        · intro h
          obtain ⟨rfl, rfl⟩ := h
          exact .operandsEnd other
        · intro h
          cases h with
          | operandsEnd => exact ⟨rfl, rfl⟩
          | operand operator => simp [Starts, operator] at other

/-- A level that groups to the left is a first operand, which may be missing, and the loop over the others. -/
theorem reads_leftLevel {bound : Nat} (small : bound ≤ n) (enough : i.length ≤ bound) :
    Reads (leftLevel op? node operand unfinished bound) i (Derives (.level (.grouping g)) i) := by
  refine .congr (.bind (reads_operand i (Nat.le_trans enough small)) fun first m h =>
    reads_moreOperands same unfinished reads_operand small (Nat.le_trans h.length_le enough) first)
    fun found o => ?_
  constructor
  · intro h
    obtain ⟨first, m, h, others⟩ := h
    exact .grouping h others
  · intro h
    cases h with
    | grouping h others => exact ⟨_, _, h, others⟩

end

section

variable {nested : Production} {n : Nat}
  (inner : ∀ i : List Terminal, i.length < n → Reads nested i (Derives expr i))

/-- The operators of equality are one terminal each. -/
theorem equalityOp?_iff {op : Comparison} {m k : List Terminal} :
    (∃ t, equalityOp? t = some op ∧ m = t :: k) ↔ Comparing.of op = .equality ∧ m = op.terminals ++ k := by
  constructor
  · intro h
    obtain ⟨t, made, rfl⟩ := h
    unfold equalityOp? at made
    split at made <;> cases made <;> exact ⟨rfl, rfl⟩
  · intro h
    obtain ⟨level, rfl⟩ := h
    cases op <;> cases level <;> exact ⟨_, rfl, rfl⟩

/-- The operators of order are one terminal each, except for `not in`, the second word of which is still to be
    read. -/
theorem relationalOp?_iff {op : Comparison} {m k : List Terminal} :
    (∃ t l, relationalOp? t = some op ∧ m = t :: l ∧
      if op = .notMember then l = .keyword .kwIn :: k else l = k) ↔
    Comparing.of op = .order ∧ m = op.terminals ++ k := by
  constructor
  · intro h
    obtain ⟨t, l, made, rfl, word⟩ := h
    unfold relationalOp? at made
    split at made <;> cases made <;> obtain rfl := word <;> exact ⟨rfl, rfl⟩
  · intro h
    obtain ⟨level, rfl⟩ := h
    cases op <;> cases level <;> exact ⟨_, _, rfl, rfl, rfl⟩

theorem isSome_equalityOp? (t : Terminal) : (equalityOp? t).isSome = Comparing.equality.begins t := by
  cases t with
  | keyword word => cases word <;> rfl
  | punct sign => cases sign <;> rfl
  | _ => rfl

theorem isSome_relationalOp? (t : Terminal) : (relationalOp? t).isSome = Comparing.order.begins t := by
  cases t with
  | keyword word => cases word <;> rfl
  | punct sign => cases sign <;> rfl
  | _ => rfl

theorem isSome_assignOp? (t : Terminal) : (assignOp? t).isSome = isAssignment t := by
  cases t with
  | punct sign => cases sign <;> rfl
  | _ => rfl

theorem assignOp?_eq_some {t : Terminal} {op : Assignment} :
    assignOp? t = some op ↔ t = op.terminal := by
  constructor
  · intro made
    unfold assignOp? at made
    split at made <;> cases made <;> rfl
  · rintro rfl
    cases op <;> rfl

include inner

theorem reads_multiplicative (enough : i.length ≤ n) :
    Reads (multiplicative n nested) i (Derives (.level (.grouping .product)) i) :=
  reads_leftLevel node?_product _ (fun _ short => reads_unary inner (Nat.le_refl n) short)
    (Nat.le_refl n) enough

theorem reads_additive (enough : i.length ≤ n) :
    Reads (additive n nested) i (Derives (.level (.grouping .sum)) i) :=
  reads_leftLevel node?_sum _ (fun _ short => reads_multiplicative inner short) (Nat.le_refl n) enough

/-- At most one comparison is made on this level, since its operands are of the level below. -/
theorem reads_relational (enough : i.length ≤ n) :
    Reads (relational n nested) i (Derives (.level (.comparing .order)) i) := by
  refine .congr (.bind (reads_additive inner enough) fun lhs m left =>
    .take? (E := fun op l found o => ∃ k rhs,
        (if op = Comparison.notMember then l = .keyword .kwIn :: k else l = k) ∧
          Derives (.level (.grouping .sum)) k (some rhs) o ∧
          found = some (Tree.relational op (operandOf lhs) rhs))
      (fun t op l made input => ?_) fun other => .pure lhs) fun found o => ?_
  · have m_le := left.length_le
    subst input
    simp only [List.length_cons] at m_le
    have operands : ∀ k : List Terminal, k.length ≤ n → Reads (do
        let left ← leftOperand lhs
        let right ← require (additive n nested) .relationalOperand
        return some (← build (.relational op left right))) k fun found o =>
          ∃ rhs, Derives (.level (.grouping .sum)) k (some rhs) o ∧
            found = some (Tree.relational op (operandOf lhs) rhs) := by
      intro k short
      refine .congr (.after (.leftOperand lhs) (.bind (.require (reads_additive inner short) _)
        fun rhs _ _ => .after (.build _) (.pure _))) fun found o => ?_
      constructor
      · intro h
        obtain ⟨rhs, _, right, rfl, rfl⟩ := h
        exact ⟨rhs, right, rfl⟩
      · intro h
        obtain ⟨rhs, right, rfl⟩ := h
        exact ⟨rhs, o, right, rfl, rfl⟩
    by_cases member : op = .notMember
    · subst member
      simp only [if_true]
      refine .congr (.expect fun k input => operands k ?_) fun found o => ?_
      · subst input
        simp only [List.length_cons] at m_le
        omega
      · exact ⟨fun ⟨k, input, rhs, right⟩ => ⟨k, rhs, input, right⟩,
          fun ⟨k, rhs, input, right⟩ => ⟨k, input, rhs, right⟩⟩
    · simp only [member, if_false]
      apply Reads.congr (operands l (by omega))
      intro found o
      constructor
      · intro h
        obtain ⟨rhs, right⟩ := h
        exact ⟨l, rhs, rfl, right⟩
      · intro h
        obtain ⟨_, rhs, rfl, right⟩ := h
        exact ⟨rhs, right⟩
  · simp only [isSome_relationalOp?]
    constructor
    · intro h
      rcases h with ⟨lhs, m, left, ⟨t, op, l, made, input, k, rhs, word, right, rfl⟩ | ⟨other, rfl, rfl⟩⟩
      · obtain ⟨level, rfl⟩ := relationalOp?_iff.mp ⟨t, l, made, input, word⟩
        exact .compared level left right
      · exact .notCompared left other
    · intro h
      cases h with
      | notCompared operand ends => exact ⟨_, _, operand, .inr ⟨ends, rfl, rfl⟩⟩
      | compared level left right =>
          obtain ⟨t, l, made, input, word⟩ := relationalOp?_iff.mpr ⟨level, rfl⟩
          exact ⟨_, _, left, .inl ⟨t, _, l, made, input, _, _, word, right, rfl⟩⟩

/-- Equality takes at most one operator as well, and comparisons of order are its operands. -/
theorem reads_equality (enough : i.length ≤ n) :
    Reads (equality n nested) i (Derives (.level (.comparing .equality)) i) := by
  refine .congr (.bind (reads_relational inner enough) fun lhs m left =>
    .take? (fun t op k made input => .after (.leftOperand lhs)
      (.bind (.require (reads_relational inner ?_) _) fun rhs _ _ => .after (.build _) (.pure _)))
      fun other => .pure lhs) fun found o => ?_
  · have m_le := left.length_le
    subst input
    simp only [List.length_cons] at m_le
    omega
  · simp only [isSome_equalityOp?]
    constructor
    · intro h
      rcases h with ⟨lhs, m, left, ⟨t, op, k, made, input, rhs, _, right, rfl, rfl⟩ | ⟨other, rfl, rfl⟩⟩
      · obtain ⟨level, rfl⟩ := equalityOp?_iff.mp ⟨t, made, input⟩
        exact .compared level left right
      · exact .notCompared left other
    · intro h
      cases h with
      | notCompared operand ends => exact ⟨_, _, operand, .inr ⟨ends, rfl, rfl⟩⟩
      | compared level left right =>
          obtain ⟨t, made, input⟩ := equalityOp?_iff.mpr ⟨level, rfl⟩
          exact ⟨_, _, left, .inl ⟨t, _, _, made, input, _, _, right, rfl, rfl⟩⟩

theorem reads_conjunction (enough : i.length ≤ n) :
    Reads (conjunction n nested) i (Derives (.level (.grouping .and)) i) :=
  reads_leftLevel node?_and _ (fun _ short => reads_equality inner short) (Nat.le_refl n) enough

theorem reads_disjunction (enough : i.length ≤ n) :
    Reads (disjunction n nested) i (Derives (.level (.grouping .or)) i) :=
  reads_leftLevel node?_or _ (fun _ short => reads_conjunction inner short) (Nat.le_refl n) enough

/-- Both branches are full expressions, so the conditional groups to the right. -/
theorem reads_conditional (enough : i.length ≤ n) :
    Reads (conditional n nested) i (Derives (.level .conditional) i) := by
  refine .congr (.bind (reads_disjunction inner enough) fun condition m left =>
    .accept (fun k input => .after (.leftOperand condition) (.bind (.require (inner k ?_) _)
      fun yes l middle => .expect fun k' input' => .bind (.require (inner k' ?_) _) fun no _ _ =>
        .after (.build _) (.pure _)))
      fun other => .pure condition) fun found o => ?_
  · have m_le := left.length_le
    subst input
    simp only [List.length_cons] at m_le
    omega
  · have m_le := left.length_le
    have l_le := middle.length_le
    subst input input'
    simp only [List.length_cons] at m_le l_le
    omega
  · constructor
    · rintro ⟨condition, _, left, ⟨k, rfl, yes, _, middle, k', rfl, no, _, right, rfl, rfl⟩ |
        ⟨other, rfl, rfl⟩⟩
      · exact .conditional left middle right
      · exact .unconditional left other
    · intro h
      cases h with
      | unconditional operand ends => exact ⟨_, _, operand, .inr ⟨ends, rfl, rfl⟩⟩
      | conditional left middle right =>
          exact ⟨_, _, left, .inl ⟨_, rfl, _, _, middle, _, rfl, _, _, right, rfl, rfl⟩⟩

/-- The value is a full expression, so assignments group to the right; the target is a single name. -/
theorem reads_assignment (enough : i.length ≤ n) :
    Reads (assignment n nested) i (Derives expr i) := by
  refine .congr (.bind (reads_conditional inner enough) fun lhs m left =>
    .take? (E := fun op k found o => ∃ text value, lhs = some (.name text) ∧
        Derives expr k (some value) o ∧ found = some (Tree.assignment op (.name text) value))
      (fun t op k made input => ?_) fun other => .pure lhs) fun found o => ?_
  · have m_le := left.length_le
    subst input
    simp only [List.length_cons] at m_le
    cases lhs with
    | none => exact .congr (.reject _) fun found o => by simp
    | some target =>
        cases target with
        | name text =>
            refine .congr (.bind (.require (inner k (by omega)) _) fun value _ _ =>
              .after (.build _) (.pure _)) fun found o => ?_
            constructor
            · intro h
              obtain ⟨value, _, right, rfl, rfl⟩ := h
              exact ⟨text, value, rfl, right, rfl⟩
            · intro h
              obtain ⟨text, value, same, right, rfl⟩ := h
              cases same
              exact ⟨value, o, right, rfl, rfl⟩
        | _ => exact .congr .rejected fun found o => by simp
  · simp only [isSome_assignOp?]
    constructor
    · intro h
      rcases h with ⟨lhs, m, left, ⟨t, op, k, made, rfl, text, value, rfl, right, rfl⟩ | ⟨other, rfl, rfl⟩⟩
      · obtain rfl := assignOp?_eq_some.mp made
        exact .assigned left right
      · exact .unassigned left other
    · intro h
      cases h with
      | unassigned operand ends => exact ⟨_, _, operand, .inr ⟨ends, rfl, rfl⟩⟩
      | assigned target right =>
          exact ⟨_, _, target, .inl ⟨_, _, _, assignOp?_eq_some.mpr rfl, rfl, _, _, rfl, right, rfl⟩⟩

end

/-- An expression of any bound that is no restriction is read as the grammar derives it. -/
theorem reads_expression (bound : Nat) (enough : i.length ≤ bound) :
    Reads (expression bound) i (Derives expr i) := by
  induction bound generalizing i with
  | zero =>
      obtain rfl := List.length_eq_zero_iff.mp (Nat.le_zero.mp enough)
      apply Reads.congr (.pure _)
      intro found o
      constructor
      · intro h
        obtain ⟨rfl, rfl⟩ := h
        exact .none_of_other rfl _
      · intro h
        have taken := h.length_add_least
        cases found with
        | none => exact ⟨rfl, List.length_eq_zero_iff.mp (Nat.le_zero.mp h.length_le)⟩
        | some t => simp [Phrase.least] at taken
  | succ bound ih =>
      exact reads_assignment (fun i short => ih (Nat.le_of_lt_succ short)) enough

end BuildScript.Grammar
