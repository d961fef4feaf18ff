/-
Module: Metrology.Decimal.Reader
Layer: Numbers
Purpose: Reading decimal number texts, with or without a sign, and the binary value nearest to one.
  At least one digit is needed on one side of the point, and an exponent needs digits.
Imports: Metrology.Decimal.Number, Metrology.Digit
Main exports: Decimal.ofDigits, Decimal.read?, Binary.read?
-/
import Metrology.Decimal.Number
import Metrology.Digit

namespace Metrology

/-- Digits before and after the point, times a power of ten. -/
def Decimal.ofDigits (whole fraction : List Nat) (exponent : Int) : Decimal :=
  ⟨positional 10 (whole ++ fraction), exponent - fraction.length⟩

/-- An unsigned decimal: digits, an optional point with digits, an optional exponent. -/
def Decimal.read? (cs : List Char) : Option Decimal :=
  let whole := cs.takeWhile (isDigitOf 10)
  let afterWhole := cs.dropWhile (isDigitOf 10)
  let afterPoint := match afterWhole with
    | '.' :: rest => rest
    | _ => []
  let fraction := afterPoint.takeWhile (isDigitOf 10)
  let tail := match afterWhole with
    | '.' :: rest => rest.dropWhile (isDigitOf 10)
    | rest => rest
  let build := Decimal.ofDigits (digitValues 10 whole) (digitValues 10 fraction)
  if whole.isEmpty && fraction.isEmpty then none
  else match tail with
    | [] => some (build 0)
    | mark :: rest => if mark = 'e' ∨ mark = 'E' then (readInt? rest).map build else none

namespace Binary

/-- An unsigned number or one of the words for infinity and not-a-number, in any case of letters. -/
def readMagnitude? (w : Width) (negative : Bool) (cs : List Char) : Option (Binary w) :=
  let word := cs.map Char.toLower
  if word = "inf".toList ∨ word = "infinity".toList then some (.infinite negative)
  else if word = "nan".toList then some .nan
  else (Decimal.read? cs).map (Decimal.toBinary w negative)

/-- The value that a text with an optional sign denotes. -/
def read? (w : Width) (text : String) : Option (Binary w) :=
  match text.toList with
  | '+' :: rest => readMagnitude? w false rest
  | '-' :: rest => readMagnitude? w true rest
  | rest => readMagnitude? w false rest

example : read? .double "-.5e1" = some (neg (ofNat 5)) := by decide +kernel
example : (read? .double "1e", read? .double ".", read? .double "") = (none, none, none) := by
  decide +kernel

end Binary

end Metrology
