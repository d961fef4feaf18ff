/-
Module: Metrology.Decimal.Number
Layer: Numbers
Purpose: Non-negative decimal numbers `significand * 10 ^ exponent`, how many digits a number has,
  the place of a quotient's leading digit, and the binary value nearest to a decimal.
Imports: Metrology.Binary.Value
Main exports: digitCount, leadingExponent, Decimal, Decimal.toBinary
-/
import Metrology.Binary.Value

namespace Metrology

/-- How many decimal digits `n` is written with. -/
def digitCount (n : Nat) : Nat :=
  if n < 10 then 1 else digitCount (n / 10) + 1
termination_by n
decreasing_by omega

/-- The decimal digits of `n`, first digit first. -/
def decimalDigits (n : Nat) : List Char := Nat.toDigits 10 n

/-- The power of ten at the leading digit of the positive quotient `num / den`. Below one it
    comes from the ceiling of the reciprocal. -/
def leadingExponent (num den : Nat) : Int :=
  if den ≤ num then (digitCount (num / den) : Int) - 1
  else -(digitCount ((den + num - 1) / num - 1) : Int)

/-- The number `significand * 10 ^ exponent`. -/
structure Decimal where
  significand : Nat
  exponent : Int
deriving DecidableEq, Repr, Inhabited

namespace Decimal

/-- Numerator of the exact value. -/
def num (d : Decimal) : Nat := d.significand * 10 ^ d.exponent.toNat

/-- Denominator of the exact value. -/
def den (d : Decimal) : Nat := 10 ^ (-d.exponent).toNat

/-- The power of ten just above the number. -/
def magnitude (d : Decimal) : Int := digitCount d.significand + d.exponent

/-- The binary value nearest to a decimal. Every finite double is below `10 ^ 400`, and everything
    below `10 ^ (-400)` rounds to zero, so the exact quotient is only formed between the two. -/
def toBinary (w : Width) (negative : Bool) (d : Decimal) : Binary w :=
  if d.significand = 0 then .zero negative
  else if 400 < d.magnitude then .infinite negative
  else if d.magnitude < -400 then .zero negative
  else .ofRatio negative (d.num * w.one) d.den

/-- Moves trailing zeros of the significand into the exponent. -/
def normalize (d : Decimal) : Decimal :=
  if h : d.significand ≠ 0 ∧ d.significand % 10 = 0 then
    normalize ⟨d.significand / 10, d.exponent + 1⟩
  else d
termination_by d.significand
decreasing_by omega

end Decimal

example : (leadingExponent 999 1, leadingExponent 1 10, leadingExponent 99 1000) = (2, -1, -2) := by
  decide +kernel

end Metrology
