/-
Module: Metrology.Decimal.Layout
Layer: Numbers
Purpose: The written forms of a binary value's shortest decimal. A layout says which leading powers
  of ten are written out in full, whether whole numbers keep a fractional zero, and how an exponent
  is marked; the four layouts in use are values of that record.
Imports: Metrology.Decimal.Shortest
Main exports: Layout, Layout.write, Layout.plain, Layout.inspect, Layout.json, Layout.powerOfTen
-/
import Metrology.Decimal.Shortest

namespace Metrology

/-- How a shortest decimal is laid out. -/
structure Layout where
  /-- Which of two equally near shortest decimals is written -/
  tie : Tie
  /-- The leading powers of ten that are written without an exponent -/
  positional : Int → Bool
  /-- A whole number in positional form ends in `.0` -/
  fractionalZero : Bool
  /-- A positive exponent carries its sign -/
  explicitPlus : Bool

namespace Layout

/-- Digits with the point after the one at the power of ten zero. -/
def positionalText (fractionalZero : Bool) (d : Decimal) : List Char :=
  let digits := decimalDigits d.significand
  if 0 ≤ d.exponent then
    digits ++ List.replicate d.exponent.toNat '0' ++ (if fractionalZero then ['.', '0'] else [])
  else
    let places := (-d.exponent).toNat
    let padded := List.replicate (places + 1 - digits.length) '0' ++ digits
    let whole := padded.length - places
    padded.take whole ++ '.' :: padded.drop whole

/-- An exponent mark with its number. -/
def exponentText (explicitPlus : Bool) (exponent : Int) : List Char :=
  let mark := if exponent < 0 then ['e', '-'] else if explicitPlus then ['e', '+'] else ['e']
  mark ++ decimalDigits exponent.natAbs

/-- First digit, point, further digits, exponent. -/
def scientificText (explicitPlus : Bool) (lead : Int) : List Char → List Char
  | [] => []
  | [digit] => digit :: exponentText explicitPlus lead
  | digit :: rest => digit :: '.' :: rest ++ exponentText explicitPlus lead

/-- The text of a decimal in a layout. -/
def decimalText (layout : Layout) (d : Decimal) : List Char :=
  let lead := d.magnitude - 1
  if d.significand = 0 || layout.positional lead then positionalText layout.fractionalZero d
  else scientificText layout.explicitPlus lead (decimalDigits d.significand)

/-- A leading minus for negative values, negative zero included. -/
def signText (negative : Bool) : List Char := if negative then ['-'] else []

/-- The text of a binary value. -/
def write {w : Width} (layout : Layout) (x : Binary w) : String :=
  match x with
  | .nan => "NaN"
  | .infinite negative => String.ofList (signText negative ++ ['i', 'n', 'f'])
  | .finite negative _ _ =>
    String.ofList (signText negative ++ layout.decimalText (x.shortest layout.tie))

/-- Values in messages and results: always positional, whole numbers without a point. -/
def plain : Layout := ⟨.up, fun _ => true, false, false⟩

/-- Values in structural dumps: whole numbers keep `.0`, and magnitudes below `1e-4` or from `1e16`
    have an exponent. -/
def inspect : Layout := ⟨.up, fun lead => -4 ≤ lead && lead < 16, true, false⟩

/-- Numbers in JSON: positional for leading powers from -5 to 15, signed exponents beyond. -/
def json : Layout := ⟨.even, fun lead => -5 ≤ lead && lead < 16, true, true⟩

/-- Multipliers in listings: always with an exponent. -/
def powerOfTen : Layout := ⟨.up, fun _ => false, false, false⟩

end Layout

/-- The text of a value in messages and results. -/
def Binary.text {w : Width} (x : Binary w) : String := Layout.plain.write x

example : (Layout.plain.write (.ofNat 1500 : Double), Layout.inspect.write (.ofNat 1500 : Double),
    Layout.powerOfTen.write (.ofNat 1500 : Double)) = ("1500", "1500.0", "1.5e3") := by
  decide +kernel

end Metrology
