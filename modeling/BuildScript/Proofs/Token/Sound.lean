/-
Module: BuildScript.Proofs.Token.Sound
Layer: proofs about tokens
Purpose: The terminals that a source is read as, whatever the source is: names are words, numbers are not
  negative, and the content of a string fits between quotes again, since the scan has stopped at the
  first closing mark.
Main exports: Terminal.isSound, isSound_of_mem_terminals, isWord_of_name_mem_terminals
-/
import BuildScript.Proofs.Token.Lossless
import BuildScript.Proofs.Token.Numeral

namespace BuildScript

/-- Whether a source can have the terminal, as far as what it holds is concerned. -/
def Terminal.isSound : Terminal → Bool
  | .name text => Text.isWord text
  | .number (some value) => !decide (value < 0)
  | .string content => (Quoting.forContent? content).isSome
  | .keyword _ | .punct _ | .number none | .invalid => true

/-- Content that fits between some quotes is given some. -/
theorem Quoting.isSome_forContent? {q : Quoting} {content : String} (fits : q.fits content = true) :
    (Quoting.forContent? content).isSome = true := by
  rw [forContent?, List.find?_isSome]
  exact ⟨q, by cases q <;> simp, fits⟩

/-- Content without the mark in it is not closed inside. -/
theorem Quoting.closes_of_not_infix {q : Quoting} {bytes : List UInt8} (absent : ¬ q.markBytes <:+: bytes) :
    q.closes bytes = false := by
  induction bytes with
  | nil => rfl
  | cons b bytes ih =>
      rw [closes, ih fun later => absent (List.infix_cons later), Bool.or_false, Bool.eq_false_iff]
      exact fun mark => absent (List.isPrefixOf_iff_prefix.mp mark).isInfix

/-- What a token is to the grammar is sound if the token can be that of a source. -/
theorem Token.isSound_terminal? {token : Token} {length : Nat} {t : Terminal} (formed : token.Formed length)
    (terminal : token.terminal? = some t) : t.isSound = true := by
  cases kind : token.kind with
  | name =>
      simp only [Token.Formed, kind] at formed
      simp only [terminal?, kind, Option.some.injEq] at terminal
      subst terminal
      exact formed
  | number radix =>
      simp only [terminal?, kind, Option.some.injEq] at terminal
      subst terminal
      cases value : Numeral.value? radix token.text with
      | none => rfl
      | some n => simpa [Terminal.isSound] using Numeral.value?_nonneg value
  | string q =>
      simp only [Token.Formed, kind] at formed
      simp only [terminal?, kind, Option.some.injEq] at terminal
      subst terminal
      apply Quoting.isSome_forContent?
      exact Quoting.fits_iff.mpr ⟨Quoting.closes_of_not_infix formed.1, formed.2⟩
  | finish => simp [terminal?, kind] at terminal
  | _ =>
      simp only [terminal?, kind, Option.some.injEq] at terminal
      subst terminal
      rfl

/-- No source has other terminals than sound ones. -/
theorem isSound_of_mem_terminals {source : String} {t : Terminal} (member : t ∈ terminals source) :
    t.isSound = true := by
  obtain ⟨token, drawn, terminal⟩ := List.mem_filterMap.mp member
  exact Token.isSound_terminal? (Token.formed_of_mem_lex drawn) terminal

/-- The names of a source are words. -/
theorem isWord_of_name_mem_terminals {source text : String} (member : .name text ∈ terminals source) :
    Text.isWord text = true :=
  isSound_of_mem_terminals member

end BuildScript
