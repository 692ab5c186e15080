/-
Module: BuildScript.Proofs.Concatenation
Layer: proofs about programs
Purpose: One program behind another, on a new line. The line feed keeps their tokens apart, even behind a
  comment or a reserved word, and the statements of the second follow those of the first unless the last
  statement of the first is an expression that the second begins by going on with.
Main exports: terminals_concatenated, Apart, parse_concatenated
-/
import BuildScript.Proofs.Grammar.Extension
import BuildScript.Proofs.Insertion

namespace BuildScript

/-!
### Tokens
-/

/-- Of what stands behind a token, its kind depends on no more than whether a word may end there. -/
theorem Lexeme.Kind.tokenKind_congr {next next' : Option UInt8}
    (same : Byte.isBoundary next = Byte.isBoundary next') (kind : Kind) (w : List UInt8) :
    kind.tokenKind w next = kind.tokenKind w next' := by
  cases kind with
  | word => rw [tokenKind, tokenKind, same]
  | _ => rfl

/-- Of a source that is lexed to its end, the tokens in front of the end mean the same with a new line and
    more behind them. -/
theorem Lexed.reads_append {start : Nat} {bytes more : List UInt8} {ts : List Token}
    {readings : List (Token.Kind × String)} (lexed : Lexed start bytes ts)
    (right : ∀ t ∈ ts, t.kind ≠ .invalid) (reads : Reads more readings) :
    ∃ front, ts.map Token.reading = front ++ [(.finish, "")] ∧
      Reads (bytes ++ Byte.newline :: more) (front ++ readings) := by
  have line : Reads (Byte.newline :: more) readings := reads.blank rfl
  induction lexed with
  | finish =>
      exact ⟨[], rfl, line⟩
  | blank blank _ ih =>
      obtain ⟨front, same, others⟩ := ih right
      exact ⟨front, same, others.blank blank⟩
  | @comment _ w bytes _ inside stop _ ih =>
      obtain ⟨front, same, others⟩ := ih right
      refine ⟨front, same, ?_⟩
      rw [List.append_assoc]
      refine others.comment inside ?_
      cases bytes with
      | nil => simp
      | cons b bytes => exact stop
  | fault fault shape =>
      exact absurd (Lexeme.Kind.tokenKind_of_isFault fault) (right _ (List.mem_singleton_self _))
  | @token start kind w bytes ts token shape _ ih =>
      obtain ⟨here, right⟩ := List.forall_mem_cons.mp right
      obtain ⟨front, same, others⟩ := ih right
      refine ⟨(kind.token start w bytes.head?).reading :: front, congrArg (List.cons _) same, ?_⟩
      rw [List.append_assoc]
      cases bytes with
      | nil =>
          have apart := others.token token (shape.before_space token (b := Byte.newline) rfl)
          have kept : kind.tokenKind w none = kind.tokenKind w (some Byte.newline) :=
            Lexeme.Kind.tokenKind_congr (by rfl) kind w
          rw [Token.reading, Lexeme.Kind.token, List.head?_nil, kept]
          exact apart
      | cons b bytes => exact others.token token shape

theorem Reads.lex_eq {source : String} {readings : List (Token.Kind × String)}
    (reads : Reads (Text.bytes source) readings) : (lex source).toList.map Token.reading = readings := by
  obtain ⟨ts, lexed, same⟩ := reads 0
  rw [lex_eq_of_lexed lexed, same]

/-- A line feed between two sources keeps their tokens apart. -/
theorem terminals_concatenated {a b : String} (right : ∀ t ∈ (lex a).toList, t.kind ≠ .invalid) :
    terminals (a ++ "\n" ++ b) = terminals a ++ terminals b := by
  obtain ⟨front, same, reads⟩ := (lexed_lex a).reads_append right (lexed_lex b).reads
  have content : Text.bytes (a ++ "\n" ++ b) = Text.bytes a ++ Byte.newline :: Text.bytes b := by
    have line : Text.bytes "\n" = [Byte.newline] := by decide +kernel
    rw [Text.bytes_append, Text.bytes_append, line, List.append_assoc]
    rfl
  rw [← content] at reads
  rw [terminals_eq_filterMap, reads.lex_eq, terminals_eq_filterMap, same, terminals_eq_filterMap,
    List.filterMap_append, List.filterMap_append]
  exact congrArg (· ++ _) (List.append_nil _).symm

/-!
### Programs
-/

/-- The statements of a body. -/
def Tree.statements : Tree → List Tree
  | .sequence statements => statements
  | _ => []

/-- Whether the statement ends with a word of its own: a conditional, a loop or a jump. -/
def Tree.isWorded : Tree → Bool
  | .conditional .. | .foreach .. | .jump .. => true
  | _ => false

/-- Whether a statement can begin with a token of the kind, and no expression goes on with one: names, truth
    values, numbers, strings, opening braces, and the words in front of statements. -/
def Token.Kind.beginsAfresh : Token.Kind → Bool
  | .name | .number _ | .string _ | .punct .leftBrace => true
  | .keyword .kwTrue | .keyword .kwFalse => true
  | .keyword .kwIf | .keyword .kwForeach | .keyword .kwBreak | .keyword .kwContinue => true
  | _ => false

/-- Nothing that the second source begins with goes on with the last statement of the first program. -/
inductive Apart (first : Tree) (second : String) : Prop where
  | nothing (none : first.statements = [])
  | worded {t} (last : first.statements.getLast? = some t) (worded : t.isWorded = true)
  | empty {t} (next : (lex second).toList.head? = some t) (ends : t.kind = .finish)
  | afresh {t} (next : (lex second).toList.head? = some t) (begins : t.kind.beginsAfresh = true)

open Grammar BuildScript.Tree

/-- The terminal of a token that begins afresh ends an expression in front of it. -/
theorem Token.endsOperand_of_beginsAfresh {t : Token} (begins : t.kind.beginsAfresh = true) :
    ∃ terminal, t.terminal? = some terminal ∧ endsOperand terminal = true := by
  rw [Token.terminal?]
  generalize t.kind = kind at begins
  unfold Token.Kind.beginsAfresh at begins
  split at begins
  case h_11 => cases begins
  all_goals exact ⟨_, rfl, rfl⟩

/-- A source that begins with the end has nothing in it. -/
theorem terminals_eq_nil {source : String} {t : Token} (next : (lex source).toList.head? = some t)
    (ends : t.kind = .finish) : terminals source = [] := by
  obtain ⟨others, tokens⟩ := List.head?_eq_some_iff.mp next
  cases others with
  | nil => simp [terminals, tokens, Token.terminal?, ends]
  | cons u others =>
      have member : t ∈ (lex source).toList.dropLast := by simp [tokens]
      have more := isSome_terminal?_of_mem_dropLast source t member
      simp [Token.terminal?, ends] at more

/-- A program that is derived is read. -/
theorem exists_parse_of_isProgram {source : String} {t : Tree} (program : IsProgram (terminals source) t) :
    ∃ ast, parse source none = .ok ast ∧ ast.tree = t := by
  have read := readTree_eq_ok.mpr program
  exact ⟨t.toAst none, parse_eq_ok.mpr ⟨t, read, rfl⟩,
    tree_toAst (isWhole_of_isProper t (isProper_of_readTree read).2) none⟩

theorem Grammar.IsProgram.statements {input : List Terminal} {t : Tree} (program : IsProgram input t) :
    Derives .statements input t.statements [] := by
  cases program with
  | emptyBody all => exact all
  | body all => exact all

theorem Grammar.isProgram_bodyOf {input : List Terminal} {ts : List Tree}
    (all : Derives .statements input ts []) : IsProgram input (bodyOf ts) := by
  cases ts with
  | nil => exact .emptyBody all
  | cons => exact .body all

/-- Behind a program that is apart from it, a source goes on with none of its expressions. -/
theorem Apart.stops {first t : Tree} {second : String} (apart : Apart first second)
    (last : first.statements.getLast? = some t) (expression : t.isExpression = true) :
    Stops .assignment (terminals second) := by
  cases apart with
  | nothing none => simp [none] at last
  | worded last' worded =>
      obtain rfl := Option.some.inj (last.symm.trans last')
      cases t <;> first | cases (worded : false = true) | cases (expression : false = true)
  | empty next ends =>
      rw [terminals_eq_nil next ends]
      exact stops_nil _
  | afresh next begins =>
      obtain ⟨terminal, found, ends⟩ := Token.endsOperand_of_beginsAfresh begins
      obtain ⟨others, tokens⟩ := List.head?_eq_some_iff.mp next
      rw [terminals, tokens, List.filterMap_cons_some found]
      exact stops_of_endsOperand ends _ _

/-- Two programs that are apart are one program on two lines: the statements of the first, and then those of the
    second. -/
theorem parse_concatenated {a b : String} {first second : Ast} (left : parse a none = .ok first)
    (right : parse b none = .ok second) (apart : Apart first.tree b) :
    ∃ ast, parse (a ++ "\n" ++ b) none = .ok ast ∧
      ast.tree = bodyOf (first.tree.statements ++ second.tree.statements) := by
  have tokens := ((parse_eq_ok_iff_derives a first).mp left).1
  have front := (isProgram_of_parse left).statements
  have back := (isProgram_of_parse right).statements
  have all := front.append_statements back (fun _ => isSound_of_mem_terminals) fun _ => apart.stops
  rw [← terminals_concatenated tokens] at all
  exact exists_parse_of_isProgram (isProgram_bodyOf all)

/-- The first program ends in a comment, which would take the second one in without the new line. -/
theorem parse_concatenated_comment : ∃ first second ast, parse "x = true # switched on" none = .ok first ∧
    parse "print(x) # the value of x" none = .ok second ∧ Apart first.tree "print(x) # the value of x" ∧
      parse ("x = true # switched on" ++ "\n" ++ "print(x) # the value of x") none = .ok ast ∧
        ast.tree = bodyOf (first.tree.statements ++ second.tree.statements) := by
  have front : readTree none "x = true # switched on" =
      .ok (.sequence [.assignment .assign (.name "x") (.bool true)]) := by cbv
  have back : readTree none "print(x) # the value of x" =
      .ok (.sequence [.application (.name "print") [.name "x"] []]) := by cbv
  have left := parse_eq_ok.mpr ⟨_, front, rfl⟩
  have right := parse_eq_ok.mpr ⟨_, back, rfl⟩
  have next : (lex "print(x) # the value of x").toList.head? = some ⟨.name, "print", ⟨0, 5⟩⟩ := by decide +kernel
  obtain ⟨ast, parsed, whole⟩ := parse_concatenated left right (.afresh next rfl)
  exact ⟨_, _, ast, left, right, .afresh next rfl, parsed, whole⟩

end BuildScript
