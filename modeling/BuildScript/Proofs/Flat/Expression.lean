/-
Module: BuildScript.Proofs.Flat.Expression
Layer: proofs about flat readings
Purpose: Every production for expressions fills the arena with what the production for trees finds. In each
  the parts are laid out one after the other, and what it adds last is their node, so the steps of laying out
  the tree are taken while it is read. In loops the invariant is that all that has been found so far lies in
  the arena as it would lie there after laying it out.
Main exports: Flat.fills_expression, and the fact for each level
-/
import BuildScript.Flat.Expression
import BuildScript.Proofs.Flat.Agreement

namespace BuildScript.Flat

open BuildScript.Parser BuildScript.Tree
open Grammar (Argument)

variable {α β γ δ : Type} {bound : Nat}

/-!
### Lists in brackets
-/

/-- The elements are laid out in the order in which they are read. -/
theorem fills_elements (close : Punct) {x : Parser Tree} {y : Step NodeId} (h : Fills layOut x y)
    (bound : Nat) : Fills layOutAll (Grammar.elements close x bound) (elements close y bound) := by
  induction bound with
  | zero => exact fun s => (h s).bind fun t id s' laid => .pure (layOutAll_singleton laid)
  | succ bound ih =>
      refine fun s => (h s).bind fun t id s' first => .read (.continues close) fun more s'' same => ?_
      rw [← same] at first
      cases more with
      | true => exact (ih s'').bind fun ts ids s₃ others => .pure (layOutAll_cons first others)
      | false => exact .pure (layOutAll_singleton first)

/-- What relates the empty lists and whatever is read between the brackets relates the two readings. -/
theorem agree_bracketed {R : List α → List β → Arena → Prop} {x : Parser (List α)} {y : Step (List β)}
    {s : State} (close : Punct) (unclosed : SyntaxError) (empty : R [] [] s.arena)
    (all : ∀ s' : State, s'.arena = s.arena → Agree R (x s'.counted) (y s')) :
    Agree R (Grammar.bracketed close unclosed x s.counted) (bracketed close unclosed y s) := by
  refine .read (.of_input (.accept _)) fun found s' same => ?_
  cases found with
  | true => exact .pure (same ▸ empty)
  | false =>
      refine (all s' same).bind fun ts ids s'' related => .read (.expect _ _) fun _ s₃ same' => ?_
      exact .pure (same' ▸ related)

/-- The brackets leave no trace in the arena. -/
theorem fills_bracketed (close : Punct) (unclosed : SyntaxError) {x : Parser (List Tree)}
    {y : Step (List NodeId)} (h : Fills layOutAll x y) :
    Fills layOutAll (Grammar.bracketed close unclosed x) (bracketed close unclosed y) := by
  refine fun s => agree_bracketed close unclosed (by rw [layOutAll]; rfl) fun s' same => ?_
  rw [← same]
  exact h s'

/-!
### Primaries
-/

/-- The text of a name is put into the arena in front of its node. -/
theorem fills_name : Fills layOutOption Grammar.name name := by
  refine fun s => .read (.of_input (.take? _)) fun found s₁ same => ?_
  cases found with
  | none => exact .pure (by rw [layOutOption, same]; rfl)
  | some text =>
      refine .allocText fun id s₂ stored => .found (.alloc ?_)
      rw [layOut, ← same, Builder.bind_apply stored]
      rfl

/-- Literals consist of a single node, which is laid out when their terminal has been read. -/
theorem agree_literal {t : Tree} {node : Node} {start : Arena} {s : State}
    (laid : t.layOut start = s.arena.add node) :
    Agree (fun t? id? arena => layOutOption t? start = (id?, arena)) (Grammar.literal t s.counted)
      (literal node s) :=
  .read (.of_input .skip) fun _ _ same => .found (.alloc (same ▸ laid))

/-- A number that is too large adds nothing, since it is rejected. -/
theorem fills_number (value? : Option Int64) :
    Fills layOutOption (Grammar.number value?) (number value?) := by
  cases value? with
  | some value => exact fun s => agree_literal (by rw [layOut]; rfl)
  | none => exact fun _ => .reject _

section

variable {x : BuildScript.Production} {y : Production} (h : Fills layOutOption x y)

include h

/-- The key lies in front of the value, and their node behind both. -/
theorem fills_entry : Fills layOut (Grammar.entry x) (entry y) := by
  refine fun s => (fills_require h _ s).bind fun key i s₁ first => .read (.expect _ _) fun _ s₂ same => ?_
  refine (fills_require h _ s₂).bind fun value j s₃ second => .alloc ?_
  rw [layOut, Builder.bind_apply first, ← same, Builder.bind_apply second]
  rfl

/-- Parentheses leave no trace in the arena. -/
theorem fills_parenthesized : Fills layOutOption
    (do
      skip
      let inner ← Parser.require x .parenthesized
      expect (.punct .rightParen) .closingParen
      return some inner : BuildScript.Production)
    (do
      skip
      let inner ← require y .parenthesized
      expect (.punct .rightParen) .closingParen
      return some inner : Production) := by
  refine fun s => .read (.of_input .skip) fun _ s₁ same => ?_
  refine (fills_require h _ s₁).bind fun t id s₂ laid => .read (.expect _ _) fun _ s₃ same' => ?_
  exact .pure (layOutOption_some (by rw [← same, laid, same']))

/-- A primary is laid out by its kind. For a row in brackets the elements come first, then the list of them and
    then its node. -/
theorem fills_primary (bound : Nat) : Fills layOutOption (Grammar.primary bound x) (primary bound y) := by
  have items := fills_bracketed .rightBracket .arrayClose
    (fills_elements .rightBracket (fills_require h .arrayItem) bound)
  have entries := fills_bracketed .rightBrace .dictionaryClose
    (fills_elements .rightBrace (fills_entry h) bound)
  refine fun s => .read (.of_input .peek) fun next s₁ same => ?_
  rw [← same]
  cases next with
  | none => exact fills_name s₁
  | some t =>
      cases t with
      | punct sign =>
          cases sign with
          | leftParen => exact fills_parenthesized h s₁
          | leftBracket =>
              refine .read (.of_input .skip) fun _ s₂ same => ?_
              refine (items s₂).bind fun ts ids s₃ laid => .allocList fun range s₄ stored => .found (.alloc ?_)
              rw [layOut, ← same, Builder.bind_apply laid, Builder.bind_apply stored]
              rfl
          | leftBrace =>
              refine .read (.of_input .skip) fun _ s₂ same => ?_
              refine (entries s₂).bind fun ts ids s₃ laid => .allocList fun range s₄ stored => .found (.alloc ?_)
              rw [layOut, ← same, Builder.bind_apply laid, Builder.bind_apply stored]
              rfl
          | _ => exact fills_name s₁
      | keyword word =>
          cases word with
          | kwTrue | kwFalse => exact agree_literal (by rw [layOut]; rfl)
          | _ => exact fills_name s₁
      | number value? => exact fills_number value? s₁
      | string content =>
          refine .allocText fun id s₂ stored => agree_literal ?_
          rw [layOut, Builder.bind_apply stored]
          rfl
      | _ => exact fills_name s₁

/-!
### Chains
-/

/-- The field of a member is laid out before it turns out whether it is a name. -/
theorem fills_field (bound : Nat) : Fills layOut (Grammar.field bound x) (field bound y) := by
  refine fun s => (fills_require (fills_primary h bound) _ s).bind fun t id s' laid => .isName laid ?_
  split
  · exact .pure laid
  · exact .reject _

end

/-- The argument lies in the arena, having been put there from `start` on. -/
inductive ArgumentLaid (start : Arena) (keywordsOnly : Bool) :
    Argument Tree → Argument NodeId → Arena → Prop where
  | positional {t : Tree} {id : NodeId} {stop : Arena} (only : keywordsOnly = false)
      (laid : t.layOut start = (id, stop)) : ArgumentLaid start keywordsOnly (.positional t) (.positional id) stop
  | keyword {t : Tree} {id : NodeId} {stop : Arena} (laid : t.layOut start = (id, stop)) :
      ArgumentLaid start keywordsOnly (.keyword t) (.keyword id) stop

/-- The arguments lie in the arena, having been put there from `start` on, the positional ones first. -/
structure ArgumentsLaid (start : Arena) (keywordsOnly : Bool) (all : List (Argument Tree))
    (ids : List (Argument NodeId)) (stop : Arena) : Prop where
  only : keywordsOnly = true → all.filterMap Argument.positional? = []
  laid : ∃ middle : Arena,
    layOutAll (all.filterMap Argument.positional?) start = (ids.filterMap Argument.positional?, middle) ∧
      layOutAll (all.filterMap Argument.keyword?) middle = (ids.filterMap Argument.keyword?, stop)

namespace ArgumentsLaid

theorem nil (start : Arena) (keywordsOnly : Bool) : ArgumentsLaid start keywordsOnly [] [] start :=
  ⟨fun _ => rfl, start, by rw [List.filterMap_nil, layOutAll]; rfl, by rw [List.filterMap_nil, layOutAll]; rfl⟩

/-- Behind a keyword argument no positional one follows, so the arguments are put where the two lists of
    them would be. -/
theorem cons {start middle stop : Arena} {keywordsOnly : Bool} {arg : Argument Tree} {id : Argument NodeId}
    {all : List (Argument Tree)} {ids : List (Argument NodeId)}
    (h : ArgumentLaid start keywordsOnly arg id middle)
    (others : ArgumentsLaid middle arg.isKeyword all ids stop) :
    ArgumentsLaid start keywordsOnly (arg :: all) (id :: ids) stop := by
  obtain ⟨only, between, args, kwargs⟩ := others
  cases h with
  | positional first laid =>
      refine ⟨fun only => ?_, between, layOutAll_cons laid args, kwargs⟩
      rw [first] at only
      cases only
  | keyword laid =>
      have none : all.filterMap Argument.positional? = [] := only rfl
      rw [none, layOutAll] at args
      obtain ⟨none', rfl⟩ := Prod.mk.inj args
      refine ⟨fun _ => none, start, ?_, layOutAll_cons laid kwargs⟩
      simp only [List.filterMap_cons, Argument.positional?, none, ← none', layOutAll]
      rfl

/-- A single argument is the last one, whichever it is. -/
theorem single {start stop : Arena} {keywordsOnly : Bool} {arg : Argument Tree} {id : Argument NodeId}
    (h : ArgumentLaid start keywordsOnly arg id stop) : ArgumentsLaid start keywordsOnly [arg] [id] stop :=
  cons h (nil stop _)

end ArgumentsLaid

section

variable {x : BuildScript.Production} {y : Production} (h : Fills layOutOption x y)

include h

/-- A keyword is laid out in front of its value. -/
theorem agree_argument (keywordsOnly : Bool) (s : State) :
    Agree (ArgumentLaid s.arena keywordsOnly) (Grammar.argument x keywordsOnly s.counted)
      (argument y keywordsOnly s) := by
  refine (fills_require h _ s).bind fun arg id s₁ first => .read (.of_input (.accept _)) fun colon s₂ same => ?_
  rw [← same] at first
  cases colon with
  | true =>
      refine .isName first ?_
      cases arg.isName with
      | false => exact .reject _
      | true =>
          refine (fills_require h _ s₂).bind fun value j s₃ second =>
            Agree.bind (R := fun t id arena => t.layOut s.arena = (id, arena)) (.alloc ?_)
              fun _ _ _ laid => .pure (.keyword laid)
          rw [layOut, Builder.bind_apply first, Builder.bind_apply second]
          rfl
  | false =>
      cases keywordsOnly with
      | true => exact .reject _
      | false => exact .pure (.positional rfl first)

/-- The arguments are put into the arena as they are read, and the two lists of them come later. -/
theorem agree_arguments (bound : Nat) (keywordsOnly : Bool) (s : State) :
    Agree (ArgumentsLaid s.arena keywordsOnly) (Grammar.arguments x bound keywordsOnly s.counted)
      (arguments y bound keywordsOnly s) := by
  induction bound generalizing keywordsOnly s with
  | zero => exact (agree_argument h keywordsOnly s).bind fun _ _ _ first => .pure (.single first)
  | succ bound ih =>
      refine (agree_argument h keywordsOnly s).bind fun arg id s₁ first =>
        .read (.continues _) fun more s₂ same => ?_
      rw [← same] at first
      cases more with
      | true =>
        have kind : id.isKeyword = arg.isKeyword := by cases first <;> rfl
        rw [kind]
        exact (ih _ s₂).bind fun _ _ _ others => .pure (.cons first others)
      | false => exact .pure (.single first)

/-- The two lists of arguments are stored behind all arguments, which lie behind the callee. -/
theorem agree_application (bound : Nat) {callee : Tree} {id : NodeId} {start : Arena} {s : State}
    (laid : callee.layOut start = (id, s.arena)) :
    Agree (fun t id arena => t.layOut start = (id, arena)) (Grammar.application bound x callee s.counted)
      (application bound y id s) := by
  refine Agree.bind (agree_bracketed .rightParen .argumentsClose (ArgumentsLaid.nil _ _) fun s₁ same =>
    same ▸ agree_arguments h bound false s₁) fun all ids s₂ ⟨_, middle, args, kwargs⟩ => ?_
  refine .allocList fun range s₃ stored => .allocList fun range' s₄ stored' => .alloc ?_
  rw [layOut, Builder.bind_apply laid, Builder.bind_apply args, Builder.bind_apply kwargs,
    Builder.bind_apply stored, Builder.bind_apply stored']
  rfl

/-- The index lies behind what it is the index of. -/
theorem agree_subscript {target : Tree} {id : NodeId} {start : Arena} {s : State}
    (laid : target.layOut start = (id, s.arena)) :
    Agree (fun t id arena => t.layOut start = (id, arena)) (Grammar.subscript x target s.counted)
      (subscript y id s) := by
  refine (fills_require h _ s).bind fun position j s₁ second => .read (.expect _ _) fun _ s₂ same => .alloc ?_
  rw [layOut, Builder.bind_apply laid, Builder.bind_apply second, ← same]
  rfl

/-- Whatever lies at the front of a chain, the links behind it are added to it. -/
theorem agree_links (bound : Nat) {object : Tree} {id : NodeId} {start : Arena} {s : State}
    (laid : object.layOut start = (id, s.arena)) :
    Agree (fun t id arena => t.layOut start = (id, arena)) (Grammar.links x bound object s.counted)
      (links y bound id s) := by
  induction bound generalizing object id s with
  | zero => exact .pure laid
  | succ bound ih =>
      refine .read (.of_input (.take? _)) fun link s₁ same => ?_
      rw [← same] at laid
      rcases link with _ | ⟨_ | _ | _⟩
      · exact .pure laid
      · refine (fills_field h bound s₁).bind fun field j s₂ second =>
          Agree.bind (R := fun t id arena => t.layOut start = (id, arena)) (.alloc ?_) fun _ _ s₃ longer => ih longer
        rw [layOut, Builder.bind_apply laid, Builder.bind_apply second]
        rfl
      · exact (agree_application h bound laid).bind fun _ _ _ longer => ih longer
      · exact (agree_subscript h laid).bind fun _ _ _ longer => ih longer

/-- What stands at the front lies in the arena before the first link is read. -/
theorem fills_chain (bound : Nat) : Fills layOutOption (Grammar.chain bound x) (chain bound y) := by
  refine fun s => (fills_primary h bound s).bindOption
    (fun s₁ same => .pure (by rw [layOutOption, same]; rfl)) fun first id s₁ laid => .isName laid ?_
  dsimp only
  split
  · exact .found (agree_links h bound laid)
  · exact .pure (layOutOption_some laid)

/-!
### Operators in front of and between operands
-/

/-- An operand lies in front of its operator's node. -/
theorem fills_unary (bound : Nat) : Fills layOutOption (Grammar.unary bound x) (unary bound y) := by
  refine fun s => .read (.of_input (.take? _)) fun op s₁ same => ?_
  rw [← same]
  cases op with
  | none => exact fills_chain h bound s₁
  | some op =>
      refine (fills_require (fills_chain h bound) _ s₁).bind fun operand id s₂ laid => .found (.alloc ?_)
      rw [layOut, Builder.bind_apply laid]
      rfl

end

/-- The two operands of an operator, the left one read before it, and then their node. -/
theorem agree_operands {S : γ → δ → Arena → Prop} {x : BuildScript.Production} {y : Production}
    (h : Fills layOutOption x y) (unfinished : SyntaxError) {tree : Tree → Tree → Tree}
    {node : NodeId → NodeId → Node}
    (laying : ∀ lhs rhs, (tree lhs rhs).layOut = do
      let lhs ← lhs.layOut
      let rhs ← rhs.layOut
      Builder.node (node lhs rhs))
    {lhs : Option Tree} {lhs' : Option NodeId} {start : Arena} {s : State}
    (laid : layOutOption lhs start = (lhs', s.arena)) {f : Tree → Parser γ} {g : NodeId → Step δ}
    (next : ∀ (t : Tree) (id : NodeId) (s' : State), t.layOut start = (id, s'.arena) →
      Agree S (f t s'.counted) (g id s')) :
    Agree S
      ((do
        let left ← Parser.leftOperand lhs
        let right ← Parser.require x unfinished
        f (← Parser.build (tree left right)) : Parser γ) s.counted)
      ((do
        let left ← leftOperand lhs'
        let right ← require y unfinished
        g (← alloc (node left right)) : Step δ) s) := by
  refine (agree_leftOperand laid).bind fun left i s₁ first =>
    (fills_require h _ s₁).bind fun right j s₂ second =>
    Agree.bind (R := fun t id arena => t.layOut start = (id, arena)) (.alloc ?_) next
  rw [laying, Builder.bind_apply first, Builder.bind_apply second]
  rfl

/-- The invariant of the loop is that all that has been read of the level lies in the arena. -/
theorem agree_moreOperands {ω : Type} {op? : Terminal → Option ω} {tree : ω → Tree → Tree → Tree}
    {node : ω → NodeId → NodeId → Node} {x : BuildScript.Production} {y : Production}
    (laying : ∀ op lhs rhs, (tree op lhs rhs).layOut = do
      let lhs ← lhs.layOut
      let rhs ← rhs.layOut
      Builder.node (node op lhs rhs))
    (h : Fills layOutOption x y) (unfinished : SyntaxError) (bound : Nat) {lhs : Option Tree}
    {lhs' : Option NodeId} {start : Arena} {s : State} (laid : layOutOption lhs start = (lhs', s.arena)) :
    Agree (fun t? id? arena => layOutOption t? start = (id?, arena))
      (Grammar.moreOperands op? tree x unfinished bound lhs s.counted)
      (moreOperands op? node y unfinished bound lhs' s) := by
  induction bound generalizing lhs lhs' s with
  | zero => exact .pure laid
  | succ bound ih =>
      refine .read (.of_input (.take? _)) fun op s₁ same => ?_
      rw [← same] at laid
      cases op with
      | none => exact .pure laid
      | some op =>
          exact agree_operands h unfinished (laying op) laid fun _ _ _ whole => ih (layOutOption_some whole)

/-- The first operand starts the loop over the others. -/
theorem fills_leftLevel {ω : Type} {op? : Terminal → Option ω} {tree : ω → Tree → Tree → Tree}
    {node : ω → NodeId → NodeId → Node} {x : BuildScript.Production} {y : Production}
    (laying : ∀ op lhs rhs, (tree op lhs rhs).layOut = do
      let lhs ← lhs.layOut
      let rhs ← rhs.layOut
      Builder.node (node op lhs rhs))
    (h : Fills layOutOption x y) (unfinished : SyntaxError) (bound : Nat) :
    Fills layOutOption (Grammar.leftLevel op? tree x unfinished bound)
      (leftLevel op? node y unfinished bound) :=
  fun s => (h s).bind fun _ _ _ laid => agree_moreOperands laying h unfinished bound laid

section

variable {x : BuildScript.Production} {y : Production} (h : Fills layOutOption x y)

include h

theorem fills_multiplicative (bound : Nat) :
    Fills layOutOption (Grammar.multiplicative bound x) (multiplicative bound y) :=
  fills_leftLevel (fun _ _ _ => by rw [layOut]) (fills_unary h bound) _ bound

theorem fills_additive (bound : Nat) : Fills layOutOption (Grammar.additive bound x) (additive bound y) :=
  fills_leftLevel (fun _ _ _ => by rw [layOut]) (fills_multiplicative h bound) _ bound

/-- The second word of `not in` leaves no trace in the arena. -/
theorem fills_relational (bound : Nat) :
    Fills layOutOption (Grammar.relational bound x) (relational bound y) := by
  refine fun s => (fills_additive h bound s).bind fun lhs lhs' s₁ laid =>
    .read (.of_input (.take? _)) fun op s₂ same => ?_
  rw [← same] at laid
  cases op with
  | none => exact .pure laid
  | some op =>
      dsimp only
      split
      · refine .read (.expect _ _) fun _ s₃ same' => ?_
        rw [← same'] at laid
        exact agree_operands (fills_additive h bound) _ (fun _ _ => by rw [layOut]) laid
          fun _ _ _ whole => .pure (layOutOption_some whole)
      · exact agree_operands (fills_additive h bound) _ (fun _ _ => by rw [layOut]) laid
          fun _ _ _ whole => .pure (layOutOption_some whole)

theorem fills_equality (bound : Nat) : Fills layOutOption (Grammar.equality bound x) (equality bound y) := by
  refine fun s => (fills_relational h bound s).bind fun lhs lhs' s₁ laid =>
    .read (.of_input (.take? _)) fun op s₂ same => ?_
  rw [← same] at laid
  cases op with
  | none => exact .pure laid
  | some op =>
      exact agree_operands (fills_relational h bound) _ (fun _ _ => by rw [layOut]) laid
        fun _ _ _ whole => .pure (layOutOption_some whole)

theorem fills_conjunction (bound : Nat) :
    Fills layOutOption (Grammar.conjunction bound x) (conjunction bound y) :=
  fills_leftLevel (fun _ _ _ => by rw [layOut]) (fills_equality h bound) _ bound

theorem fills_disjunction (bound : Nat) :
    Fills layOutOption (Grammar.disjunction bound x) (disjunction bound y) :=
  fills_leftLevel (fun _ _ _ => by rw [layOut]) (fills_conjunction h bound) _ bound

/-- The condition, the two branches and their node lie one behind the other. -/
theorem fills_conditional (bound : Nat) :
    Fills layOutOption (Grammar.conditional bound x) (conditional bound y) := by
  refine fun s => (fills_disjunction h bound s).bind fun condition condition' s₁ laid =>
    .read (.of_input (.accept _)) fun question s₂ same => ?_
  rw [← same] at laid
  cases question with
  | false => exact .pure laid
  | true =>
      refine (agree_leftOperand laid).bind fun condition i s₃ first =>
        (fills_require h _ s₃).bind fun yes j s₄ second => .read (.expect _ _) fun _ s₅ same' =>
        (fills_require h _ s₅).bind fun no k s₆ third => .found (.alloc ?_)
      rw [same'] at third
      rw [layOut, Builder.bind_apply first, Builder.bind_apply second, Builder.bind_apply third]
      rfl

/-- The target lies in the arena already when it is found to be no name. -/
theorem fills_assignment (bound : Nat) :
    Fills layOutOption (Grammar.assignment bound x) (assignment bound y) := by
  refine fun s => (fills_conditional h bound s).bind fun lhs lhs' s₁ laid =>
    .read (.of_input (.take? _)) fun op s₂ same => ?_
  rw [← same] at laid
  cases op with
  | none => exact .pure laid
  | some op =>
      obtain ⟨rfl, rfl, -⟩ | ⟨target, i, rfl, rfl, first⟩ := layOutOption_cases laid
      · exact .reject _
      · refine .isName first ?_
        dsimp only
        cases target.isName with
        | false => exact .reject _
        | true =>
            refine (fills_require h _ s₂).bind fun value j s₃ second => .found (.alloc ?_)
            rw [layOut, Builder.bind_apply first, Builder.bind_apply second]
            rfl

end

/-- Expressions lie in the arena as their trees are laid out; those nested in them are the hypothesis of the
    induction. -/
theorem fills_expression (bound : Nat) :
    Fills layOutOption (Grammar.expression bound) (expression bound) := by
  induction bound with
  | zero => exact fun s => .pure (by rw [layOutOption]; rfl)
  | succ bound ih => exact fills_assignment ih (bound + 1)

end BuildScript.Flat
