/-
Module: Metrology.Conversion
Layer: Units
Purpose: Conversion between units of one dimension. A value is multiplied by the ratio of the two
  factors; there are no offsets.
Imports: Metrology.MeasureUnit, Metrology.Diagnostic
Main exports: ConversionError, MeasureUnit.conversionFactor, convertValue
-/
import Metrology.MeasureUnit
import Metrology.Diagnostic

namespace Metrology

/-- Why two quantities cannot be brought together. -/
inductive ConversionError where
  | incompatible (source target : Dimension)
  | unitMismatch (left right : MeasureUnit)
deriving DecidableEq

/-- The report of a refused conversion or sum; it has no range in any text. -/
def ConversionError.diagnostic : ConversionError → Diagnostic
  | incompatible source target =>
    { code := "U0101"
      message := "units are only interconvertible if they measure the same kind of dimension."
      help? := some (String.join ["cannot convert a quantity of dimension `", source.text,
        "` into one of dimension `", target.text, "`"])
      labels := [] }
  | unitMismatch left right =>
    { code := "U0102"
      message := String.join ["cannot combine `", left.text, "` with `", right.text,
        "`: both terms must carry the same unit"]
      help? := some "convert one operand with `convert_to` before adding or subtracting"
      labels := [] }

/-- What a value in `source` is multiplied by to give the value in `target`. -/
def MeasureUnit.conversionFactor (source target : MeasureUnit) : Except ConversionError Double :=
  if source.isCompatible target then .ok (source.factor / target.factor)
  else .error (.incompatible source.dimension target.dimension)

/-- A value in `source` as a value in `target`. -/
def convertValue (value : Double) (source target : MeasureUnit) : Except ConversionError Double :=
  (source.conversionFactor target).map fun ratio => value * ratio

end Metrology
