/-
Module: Metrology.Rounding
Layer: Numbers
Purpose: Rounding an exact quotient of natural numbers to the nearest integer. Floats and printed
  decimals both round exactly once, and they differ only in where a tie goes.
Imports: none (Mathlib-free)
Main exports: Tie, divRound, divRound_mul_right
-/

namespace Metrology

-- Powers of whole numbers are the ones that evaluate to literals, whatever else is in scope.
attribute [instance (2000)] instPowNat
attribute [default_instance (20000)] instPowNat

/-- Where the midpoint of two neighbours goes. -/
inductive Tie where
  | even
  | up
deriving DecidableEq, Repr, Inhabited

/-- The integer nearest to `num / den`; a midpoint goes where `tie` says. -/
def divRound (tie : Tie) (num den : Nat) : Nat :=
  let below := num / den
  let rest := num % den
  if 2 * rest < den then below
  else if den < 2 * rest then below + 1
  else match tie with
    | .even => if below % 2 = 0 then below else below + 1
    | .up => below + 1

/-- An exact quotient is not moved by rounding. -/
theorem divRound_mul_right (tie : Tie) (q den : Nat) (h : 0 < den) :
    divRound tie (q * den) den = q := by
  have quotient : q * den / den = q := Nat.mul_div_cancel q h
  have rest : q * den % den = 0 := Nat.mul_mod_left q den
  simp [divRound, quotient, rest, h]

/-- A rounded quotient is one of the two integers around the exact one. -/
theorem divRound_eq_or (tie : Tie) (num den : Nat) :
    divRound tie num den = num / den ∨ divRound tie num den = num / den + 1 := by
  simp only [divRound]
  split
  · exact .inl rfl
  · split
    · exact .inr rfl
    · cases tie with
      | even => simp only; split <;> simp
      | up => exact .inr rfl

example : (divRound .even 5 2, divRound .up 5 2, divRound .even 7 2) = (2, 3, 4) := by decide

end Metrology
