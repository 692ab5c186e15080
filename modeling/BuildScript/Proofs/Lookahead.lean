/-
Module: BuildScript.Proofs.Lookahead
Layer: proofs about programs
Purpose: The reading of a source is decided by the tokens that it draws: those that it takes and the one it then
  stands in front of. What is written behind them makes no difference to the program, nor to the error.
Main exports: tokensDrawn, parse_eq_of_agrees
-/
import BuildScript.Proofs.Grammar.Bound
import BuildScript.Proofs.NodeLimit
import BuildScript.Proofs.Token.Agreement

namespace BuildScript

/-- How many tokens the reading of a source draws, whether it succeeds or not. There is one drawn before it
    begins and one more for every terminal that it takes, so that it always stands in front of a token
    that is drawn but not taken. -/
def tokensDrawn (source : String) (maxNodes : Option Nat) : Nat :=
  let left := (Flat.Outcome.state (parseTerminals maxNodes (terminals source))).input
  (terminals source).length - left.length + 1

open BuildScript.Parser

theorem tokensDrawn_eq (source : String) (maxNodes : Option Nat) : tokensDrawn source maxNodes =
    (terminals source).length -
      (Outcome.state (readTerminals maxNodes (terminals source))).input.length + 1 := by
  rw [← (agree_parseTerminals maxNodes (terminals source)).counted_state]
  rfl

/-- A reading comes to the same on all terminals that agree on what it takes and on one terminal more. -/
theorem readTerminals_before {maxNodes : Option Nat} {input other : List Terminal} {k : Nat}
    (taken : input.length - (Outcome.state (readTerminals maxNodes input)).input.length = k)
    (agree : other.take (k + 1) = input.take (k + 1)) :
    readTerminals maxNodes other = Outcome.before (other.drop k) (readTerminals maxNodes input) := by
  -- Both are read with a bound that is enough for either.
  let bound := max input.length other.length
  let s : State := { input, built := 0, limit := maxNodes }
  have first : readTerminals maxNodes input = Grammar.program bound s :=
    (readTerminals_eq maxNodes input).trans
      (program_eq_of_le (Nat.le_refl _) (Nat.le_max_left _ _))
  have second : readTerminals maxNodes other = Grammar.program bound (s.before other) :=
    (readTerminals_eq maxNodes other).trans
      (program_eq_of_le (Nat.le_refl _) (Nat.le_max_right _ _))
  obtain ⟨k', inside, rest, same⟩ := Local.program bound s
  have same_taken : k' = k := by
    rw [first, rest, List.length_drop] at taken
    have inside : k' ≤ input.length := inside
    have taken : input.length - (input.length - k') = k := taken
    omega
  subst same_taken
  rw [first, second]
  exact same other agree

/-- A source whose first tokens agree with those that the reading of another one draws is read in the same way,
    to the same program or with the same error. -/
theorem parse_eq_of_agrees (source other : String) (maxNodes : Option Nat)
    (agree : List.Forall₂ Token.Agrees ((lex source).toList.take (tokensDrawn source maxNodes))
      ((lex other).toList.take (tokensDrawn source maxNodes))) :
    parse other maxNodes = parse source maxNodes := by
  rw [tokensDrawn_eq] at agree
  have same := readTerminals_before rfl (terminals_take_eq agree)
  have read : readTree maxNodes other = readTree maxNodes source := by
    rw [readTree, readTree, same]
    cases readTerminals maxNodes (terminals source) <;> rfl
  rw [parse_eq, parse_eq, read]

/-- Five tokens are enough here: blanks, radix, quotes and what stands behind the parenthesis differ. -/
theorem parse_eq_of_agrees_closing_paren :
    tokensDrawn "x = 8 'a' ) y" none = 5 ∧
      parse "x=0b1000 '''a''')!" none = parse "x = 8 'a' ) y" none := by
  have drawn : tokensDrawn "x = 8 'a' ) y" none = 5 := by decide +kernel
  have left : (lex "x = 8 'a' ) y").toList.take 5 =
      [⟨.name, "x", ⟨0, 1⟩⟩, ⟨.punct .eq, "=", ⟨2, 3⟩⟩, ⟨.number .decimal, "8", ⟨4, 5⟩⟩,
        ⟨.string .single, "a", ⟨6, 9⟩⟩, ⟨.punct .rightParen, ")", ⟨10, 11⟩⟩] := by decide +kernel
  have right : (lex "x=0b1000 '''a''')!").toList.take 5 =
      [⟨.name, "x", ⟨0, 1⟩⟩, ⟨.punct .eq, "=", ⟨1, 2⟩⟩, ⟨.number .binary, "1000", ⟨2, 8⟩⟩,
        ⟨.string .triple, "a", ⟨9, 16⟩⟩, ⟨.punct .rightParen, ")", ⟨16, 17⟩⟩] := by decide +kernel
  have magnitude : Numeral.magnitude? .decimal "8" = Numeral.magnitude? .binary "1000" := by
    decide +kernel
  refine ⟨drawn, parse_eq_of_agrees _ _ none ?_⟩
  rw [drawn, left, right]
  exact .cons (.same rfl rfl) (.cons (.punct .eq rfl rfl)
    (.cons (.number .decimal .binary rfl rfl magnitude)
      (.cons (.string .single .triple rfl rfl rfl) (.cons (.punct .rightParen rfl rfl) .nil))))

end BuildScript
