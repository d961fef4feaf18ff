/-
Module: Metrology.Decimal.Significant
Layer: Numbers
Purpose: A value to a chosen number of decimal places or of significant digits. The exact binary
  value is rounded once, half to even. Significant digits are counted from the floor of the base-ten
  logarithm in double precision, which just below a power of ten is that power's exponent.
Imports: Metrology.Decimal.Layout, Metrology.Decimal.Logarithm
Main exports: Binary.fixed, Binary.scientific, placesFor, significant?
-/
import Metrology.Decimal.Layout
import Metrology.Decimal.Logarithm

namespace Metrology

namespace Binary

variable {w : Width}

/-- The value rounded to a number of decimal places. -/
def fixed (places : Nat) : Binary w → String
  | .finite negative units _ =>
    let rounded := divRound .even (units * 10 ^ places) w.one
    let digits := decimalDigits rounded
    let padded := List.replicate (places + 1 - digits.length) '0' ++ digits
    let whole := padded.length - places
    let fraction := if places = 0 then [] else '.' :: padded.drop whole
    String.ofList (Layout.signText negative ++ padded.take whole ++ fraction)
  | x => x.text

/-- The value rounded to one digit before the point and `places` after it, with an exponent. -/
def scientific (places : Nat) : Binary w → String
  | .finite negative units _ =>
    if units = 0 then
      let digits := '0' :: List.replicate places '0'
      String.ofList (Layout.signText negative ++ Layout.scientificText false 0 digits)
    else
      let lead := leadingExponent units w.one
      let grid := lead - places
      let rounded := divRound .even (gridNum units grid) (gridDen w grid)
      let carried := decide (10 ^ (places + 1) ≤ rounded)
      let digits := decimalDigits (if carried then rounded / 10 else rounded)
      let lead := if carried then lead + 1 else lead
      String.ofList (Layout.signText negative ++ Layout.scientificText false lead digits)
  | x => x.text

end Binary

/-! ### Significant digits -/

/-- Drops trailing zeros after a point, and the point if nothing is left behind it. -/
def trimFraction (text : List Char) : List Char :=
  if text.contains '.' then
    let kept := text.reverse.dropWhile (· == '0')
    (match kept with
      | '.' :: rest => rest
      | other => other).reverse
  else text

/-- Places are written out up to this many; beyond, and left of the point, an exponent is used. -/
def mostPlaces : Int := 17

/-- The widest precision a formatter takes. -/
def widestPrecision : Nat := 65535

/-- The decimal places that show `precision` significant digits of a magnitude. The precision is
    read as a signed 64-bit word, so one of `2 ^ 63` or more counts from below zero. -/
def placesFor (precision units : Nat) : Int :=
  Int.bmod precision (2 ^ 64) - 1 - logFloor units

/-- `value` to `precision` significant digits without trailing zeros; zero, infinities and a
    precision of zero give the plain text. There is no text when the precision is too wide for a
    formatter. -/
def significant? (value : Double) (precision : Nat) : Option String :=
  match value with
  | .finite _ units _ =>
    if units = 0 || precision = 0 then some value.text
    else
      let places := placesFor precision units
      if 0 ≤ places && places ≤ mostPlaces then
        some (String.ofList (trimFraction (value.fixed places.toNat).toList))
      else if widestPrecision < precision - 1 then none
      else some (value.scientific (precision - 1))
  | _ => some value.text

example : significant? (.ofNat 2 / .ofNat 3) 5 = some "0.66667" := by decide +kernel

example : significant? (.ofNat 1 / .ofNat 1000) (2 ^ 64 - 1) = some "0" := by decide +kernel

end Metrology
