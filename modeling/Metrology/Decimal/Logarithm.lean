/-
Module: Metrology.Decimal.Logarithm
Layer: Numbers
Purpose: The base-ten logarithm of a double, in double precision, and its floor. The value is split
  into a power of two and a significand near one; the logarithm of two is split into a head, whose
  product with any exponent is exact, and a tail. Each operation rounds, so just below a power of
  ten the logarithm can come out as the next integer; elsewhere its floor is the exponent of the
  leading digit.
Imports: Metrology.Decimal.Number
Main exports: naturalLog, log10, logFloor
-/
import Metrology.Decimal.Number

namespace Metrology

/-! ### The natural logarithm near one

With `t = (m - 1) / (m + 1)` the natural logarithm of `m` is twice `t + t ^ 3 / 3 + t ^ 5 / 5 + …`.
For `m` between one and two `t` is at most a third, so each term is less than a ninth of the one
before it. The sum is taken from above: every quotient in it is rounded up. -/

/-- How many binary places the sum keeps. -/
def seriesPlaces : Nat := 68

/-- How many terms the sum has: the first one left out is below the last place. -/
def seriesTerms : Nat := 32

/-- The least integer that is not below `num / den`. -/
def divUp (num den : Nat) : Nat := (num + (den - 1)) / den

/-- The product of two counts of units, in units. -/
def unitsProduct (a b : Nat) : Nat := divUp (a * b) (2 ^ seriesPlaces)

/-- The sum of `power / odd`, `power * square / (odd + 2)` and so on, in units of the last place. -/
def oddSeries (square : Nat) : Nat → Nat → Nat → Nat
  | 0, _, _ => 0
  | terms + 1, power, odd =>
    divUp power odd + oddSeries square terms (unitsProduct power square) (odd + 2)

/-- The natural logarithm of `num / den`, between one and two, in units of the last place. -/
def naturalLogUnits (num den : Nat) : Nat :=
  let t := divUp ((num - den) * 2 ^ seriesPlaces) (num + den)
  2 * oddSeries (unitsProduct t t) seriesTerms t 1

/-- The natural logarithm of `num / den`, between a half and two. -/
def naturalLog (num den : Nat) : Double :=
  let one := Width.double.one
  if den ≤ num then .ofRatio false (naturalLogUnits num den * one) (2 ^ seriesPlaces)
  else .ofRatio true (naturalLogUnits den num * one) (2 ^ seriesPlaces)

/-! ### The base-ten logarithm -/

/-- The constants have sixty decimal places. -/
def constantScale : Nat := 10 ^ 60

/-- The base-ten logarithm of two, in units of the last place. -/
def logTwoUnits : Nat := 301029995663981195213738894724493026768189881462108541310427

/-- The base-ten logarithm of the natural base, in units of the last place. -/
def logNaturalBaseUnits : Nat := 434294481903251827651128918916605082294397005803666566114453

/-- How many binary places the head of the logarithm of two has: few enough for its product with an
    exponent of eleven bits to be exact. -/
def headPlaces : Nat := 41

/-- The logarithm of two cut off after the head's places, counted in the last of them. -/
def headUnits : Nat := logTwoUnits * 2 ^ headPlaces / constantScale

def logTwoHead : Double := .ofRatio false (headUnits * Width.double.one) (2 ^ headPlaces)

/-- The logarithm of two without its head. -/
def logTwoTail : Double :=
  .ofRatio false ((logTwoUnits * 2 ^ headPlaces - headUnits * constantScale) * Width.double.one)
    (constantScale * 2 ^ headPlaces)

def logNaturalBase : Double :=
  .ofRatio false (logNaturalBaseUnits * Width.double.one) constantScale

/-- The binary places by which a count of units exceeds its significand: the significand is between
    one and two for values from one up, and between a half and one below. -/
def significandShift (units : Nat) : Nat :=
  if units.log2 < Width.double.scale then units.log2 + 1 else units.log2

/-- The base-ten logarithm of a positive count of units. -/
def log10 (units : Nat) : Double :=
  let shift := significandShift units
  let exponent : Double := .ofSum false (((shift : Int) - Width.double.scale) * Width.double.one)
  exponent * logTwoTail + logNaturalBase * naturalLog units (2 ^ shift) + exponent * logTwoHead

/-! ### Its floor -/

/-- Whether a positive count of units is below `10 ^ k`, by less than one part in `10 ^ 12`. -/
def isJustBelow (units : Nat) (k : Int) : Bool :=
  let bound := Width.double.one * 10 ^ k.toNat
  let value := units * 10 ^ (-k).toNat
  value < bound && (bound - value) * 10 ^ 12 < bound

/-- Whether the logarithm of a positive count of units comes out as `k` or more. -/
def logReaches (units : Nat) (k : Int) : Bool :=
  !(log10 units).numericLt (.ofSum false (k * Width.double.one))

/-- The floor of the base-ten logarithm of a positive count of units, taken in double precision: the
    exponent of the leading digit, or the next one if the value is so little below that power of ten
    that the logarithm comes out as its exponent. -/
def logFloor (units : Nat) : Int :=
  let lead := leadingExponent units Width.double.one
  if isJustBelow units (lead + 1) && logReaches units (lead + 1) then lead + 1 else lead

example : (logTwoHead.toBits, logTwoTail.toBits, logNaturalBase.toBits) =
    (0x3fd34413509f6000, 0x3d59fef311f12b36, 0x3fdbcb7b1526e50e) := by decide +kernel

example : (log10 (1000 * Width.double.one)).toBits = 0x4008000000000000 := by decide +kernel

example : logFloor (1000 * Width.double.one - Width.double.one / 2 ^ 43) = 3 := by decide +kernel

example : logFloor (1000 * Width.double.one - Width.double.one / 2 ^ 33) = 2 := by decide +kernel

end Metrology
