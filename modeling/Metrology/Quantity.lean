/-
Module: Metrology.Quantity
Layer: Units
Purpose: Values that carry their unit. Sums need the very same unit on both sides, products and
  quotients derive theirs, and conversion rounds the ratio of factors to the value's own format
  before it multiplies.
Imports: Metrology.Conversion
Main exports: Number, Quantity, QuantityKind, tryAdd, trySub, mul, div, pow, checkedMul, convertTo
-/
import Metrology.Conversion

namespace Metrology

/-- The numeric types that a quantity can carry, with their written forms. -/
class Number (α : Type) where
  /-- The name of the type in structural dumps -/
  typeName : String
  /-- The value in messages and results -/
  text : α → String
  /-- The value in structural dumps -/
  inspect : α → String

/-- The name of a format in structural dumps. -/
def Width.typeName : Width → String
  | single => "f32"
  | double => "f64"

instance (w : Width) : Number (Binary w) := ⟨w.typeName, Binary.text, Layout.inspect.write⟩

instance : Number Int64 := ⟨"i64", fun n => toString n.toInt, fun n => toString n.toInt⟩

/-- A value with its unit. -/
structure Quantity (α : Type) where
  value : α
  unit : MeasureUnit
deriving DecidableEq

/-- A unit for values of a numeric type, with no value yet. -/
structure QuantityKind (α : Type) where
  unit : MeasureUnit
deriving DecidableEq

namespace QuantityKind

variable {α : Type}

/-- Attaches a value. -/
def init (kind : QuantityKind α) (value : α) : Quantity α := ⟨value, kind.unit⟩

/-- Kinds are equal when their units are the very same. -/
def sameAs (a b : QuantityKind α) : Bool := a.unit.sameAs b.unit

/-- The kind as a structural dump. -/
def inspect [Number α] (kind : QuantityKind α) : String :=
  String.join ["QuantityKind \x7b unit: ", kind.unit.inspect, ", numeric: \"",
    Number.typeName α, "\" \x7d"]

end QuantityKind

namespace Quantity

variable {α : Type}

/-! ### Any numeric type -/

def isCompatible (a b : Quantity α) : Bool := a.unit.isCompatible b.unit

/-- The value, with its unit in brackets unless that is one. -/
def text [Number α] (q : Quantity α) : String :=
  if q.unit.sameAs .one then Number.text q.value
  else String.join [Number.text q.value, " [", q.unit.text, "]"]

/-- Fails unless both quantities carry the very same unit. -/
def demandSameUnit (a b : Quantity α) : Except ConversionError Unit :=
  if a.unit.sameAs b.unit then .ok () else .error (.unitMismatch a.unit b.unit)

def tryAdd [Add α] (a b : Quantity α) : Except ConversionError (Quantity α) := do
  demandSameUnit a b
  return ⟨a.value + b.value, a.unit⟩

def trySub [Sub α] (a b : Quantity α) : Except ConversionError (Quantity α) := do
  demandSameUnit a b
  return ⟨a.value - b.value, a.unit⟩

def neg [Neg α] (a : Quantity α) : Quantity α := ⟨-a.value, a.unit⟩

/-- The product, with the product unit under its contract. -/
def mul [Mul α] (a b : Quantity α) : Except Fault (Quantity α) := do
  return ⟨a.value * b.value, ← a.unit.multiply b.unit⟩

def div [Div α] (a b : Quantity α) : Except Fault (Quantity α) := do
  return ⟨a.value / b.value, ← a.unit.divide b.unit⟩

def checkedMul [Mul α] (a b : Quantity α) : Except AlgebraError (Quantity α) := do
  let unit ← a.unit.checkedMultiply b.unit
  return ⟨a.value * b.value, unit⟩

def checkedDiv [Div α] (a b : Quantity α) : Except AlgebraError (Quantity α) := do
  let unit ← a.unit.checkedDivide b.unit
  return ⟨a.value / b.value, unit⟩

/-! ### Binary floats -/

variable {w : Width}

/-- A whole power, with the unit's power under its contract. -/
def pow (a : Quantity (Binary w)) (n : Int) : Except Fault (Quantity (Binary w)) := do
  return ⟨a.value.power n, ← a.unit.raise n⟩

def checkedPow (a : Quantity (Binary w)) (n : Int) : Except AlgebraError (Quantity (Binary w)) := do
  let unit ← a.unit.checkedRaise n
  return ⟨a.value.power n, unit⟩

/-- The same quantity in a compatible unit. -/
def convertTo (a : Quantity (Binary w)) (target : MeasureUnit) :
    Except ConversionError (Quantity (Binary w)) := do
  let ratio ← a.unit.conversionFactor target
  return ⟨a.value * ratio.convert w, target⟩

def convertToValue (a : Quantity (Binary w)) (target : MeasureUnit) :
    Except ConversionError (Binary w) := do
  return (← a.convertTo target).value

/-- Numeric equality of values and factors, and equality of dimensions. -/
def numericEq (a b : Quantity (Binary w)) : Bool :=
  a.value.numericEq b.value && a.unit.numericEq b.unit

end Quantity

end Metrology
