/-
Module: Metrology.TypedQuantity
Layer: Units
Purpose: Quantities whose unit is part of their type. Only the value is kept; sums and conversions
  ask for a proof about the two unit terms, so a wrong one cannot be written down.
Imports: Metrology.Quantity, Metrology.UnitTerm
Main exports: TypedQuantity, add, sub, mul, div, pow, convertTo, toQuantity, Quantity.toTyped
-/
import Metrology.Quantity
import Metrology.UnitTerm

namespace Metrology

/-- A value in the unit that the term `t` spells. -/
structure TypedQuantity (α : Type) (t : UnitTerm) where
  value : α
deriving DecidableEq

namespace TypedQuantity

variable {α : Type} {s t : UnitTerm}

/-! ### Any numeric type -/

/-- The sum of quantities in the same unit; it keeps the spelling on the left. -/
def add [Add α] (a : TypedQuantity α s) (b : TypedQuantity α t) (_ : s.SameUnit t) :
    TypedQuantity α s := ⟨a.value + b.value⟩

/-- The difference of quantities in the same unit; it keeps the spelling on the left. -/
def sub [Sub α] (a : TypedQuantity α s) (b : TypedQuantity α t) (_ : s.SameUnit t) :
    TypedQuantity α s := ⟨a.value - b.value⟩

def neg [Neg α] (a : TypedQuantity α t) : TypedQuantity α t := ⟨-a.value⟩

def mul [Mul α] (a : TypedQuantity α s) (b : TypedQuantity α t) : TypedQuantity α (.product s t) :=
  ⟨a.value * b.value⟩

def div [Div α] (a : TypedQuantity α s) (b : TypedQuantity α t) : TypedQuantity α (.quotient s t) :=
  ⟨a.value / b.value⟩

/-- Multiplies by a plain number on the right. -/
def mulScalar [Mul α] (a : TypedQuantity α t) (k : α) : TypedQuantity α t := ⟨a.value * k⟩

/-- Multiplies by a plain number on the left. -/
def scalarMul [Mul α] (k : α) (a : TypedQuantity α t) : TypedQuantity α t := ⟨k * a.value⟩

def divScalar [Div α] (a : TypedQuantity α t) (k : α) : TypedQuantity α t := ⟨a.value / k⟩

/-- The same value with the unit carried beside it. -/
def toQuantity (a : TypedQuantity α t) (h : t.WellDefined) : Quantity α := ⟨a.value, t.unit h⟩

/-- The value with the symbol of its unit, unless that is one. -/
def text [Number α] (a : TypedQuantity α t) (h : t.WellDefined) : String :=
  if (t.unit h).sameAs .one then Number.text a.value
  else String.join [Number.text a.value, " ", t.symbol]

/-- The quantity as a structural dump. -/
def inspect [Number α] (a : TypedQuantity α t) (h : t.WellDefined) : String :=
  String.join ["Quantity \x7b value: ", Number.inspect a.value, ", unit: \"", t.symbol,
    "\", dimension: ", (t.unit h).dimension.inspect, " \x7d"]

/-! ### Binary floats -/

variable {w : Width}

def pow (a : TypedQuantity (Binary w) t) (n : Int) : TypedQuantity (Binary w) (.power t n) :=
  ⟨a.value.power n⟩

/-- What a value in `s` is multiplied by to give the value in `t`, in the value's own format. -/
def ratio (w : Width) (h : s.Compatible t) : Binary w :=
  ((s.unit h.1).factor / (t.unit h.2.1).factor).convert w

/-- The same quantity in a compatible unit. -/
def convertTo (a : TypedQuantity (Binary w) s) (t : UnitTerm) (h : s.Compatible t) :
    TypedQuantity (Binary w) t := ⟨a.value * ratio w h⟩

end TypedQuantity

/-- A quantity converted into the unit of a term. -/
def Quantity.toTyped {w : Width} (a : Quantity (Binary w)) (t : UnitTerm) (h : t.WellDefined) :
    Except ConversionError (TypedQuantity (Binary w) t) := do
  return ⟨(← a.convertTo (t.unit h)).value⟩

end Metrology
