/-
Module: Metrology.MeasureUnit
Layer: Units
Purpose: Units of measure and their algebra. A unit is a dimension with a scale factor relative to
  the coherent unit of that dimension; identity is structural. Each operation comes in two forms:
  the checked one reports why there is no result, the other one treats that as a breach of its
  contract and faults.
Imports: Metrology.Dimension, Metrology.MetricPrefix, Metrology.Decimal.Layout
Main exports: MeasureUnit, Fault, AlgebraError, multiply, divide, raise, scale, checkedMultiply,
  checkedDivide, checkedRaise, checkedScale, sameAs
-/
import Metrology.Dimension
import Metrology.MetricPrefix
import Metrology.Decimal.Layout

namespace Metrology

/-- The contracts that an unchecked operation demands of its caller. -/
inductive Fault where
  /-- An exponent of the result is out of range -/
  | exponentRange
  /-- The number to scale by is not positive and finite -/
  | scaleArgument
  /-- The factor of the result is not positive and finite -/
  | factorRange
deriving DecidableEq, Repr, Inhabited

/-- What a fault is reported as. -/
def Fault.message : Fault → String
  | exponentRange => "dimension exponent out of range"
  | scaleArgument => "scale must be positive and finite"
  | factorRange => "unit scale factor must be positive and finite"

/-- Why a checked operation has no result. -/
inductive AlgebraError where
  | exponentOverflow
  | factorOutOfRange
deriving DecidableEq, Repr, Inhabited

def AlgebraError.message : AlgebraError → String
  | exponentOverflow => "a dimension exponent left the representable range"
  | factorOutOfRange => "the scale factor is not a positive finite number"

/-! ### Dimensions under a contract -/

namespace Dimension

/-- The result of a range check that the caller has promised to pass. -/
def demand (result : Option Dimension) : Except Fault Dimension :=
  match result with
  | some d => .ok d
  | none => .error .exponentRange

def mul (a b : Dimension) : Except Fault Dimension := demand (a.mul? b)

def div (a b : Dimension) : Except Fault Dimension := demand (a.div? b)

def pow (a : Dimension) (n : Int) : Except Fault Dimension := demand (a.pow? n)

def recip (a : Dimension) : Except Fault Dimension := dimensionless.div a

end Dimension

/-- A dimension with a scale factor relative to its coherent unit. -/
structure MeasureUnit where
  dimension : Dimension
  factor : Double
deriving DecidableEq, Inhabited

namespace MeasureUnit

/-- The units that the algebra is about: their factor is positive and finite. -/
def Valid (u : MeasureUnit) : Prop := u.factor.isPositiveFinite = true

instance (u : MeasureUnit) : Decidable u.Valid := inferInstanceAs (Decidable (_ = _))

/-- The coherent unit of a dimension. -/
def base (d : Dimension) : MeasureUnit := ⟨d, .one⟩

/-- The dimensionless unit with factor one. -/
def one : MeasureUnit := base .dimensionless

theorem valid_base (d : Dimension) : (base d).Valid := Binary.isPositiveFinite_one

theorem valid_one : one.Valid := valid_base _

/-- A unit with a factor that is promised to be positive and finite. -/
def create (d : Dimension) (factor : Double) : Except Fault MeasureUnit :=
  if factor.isPositiveFinite then .ok ⟨d, factor⟩ else .error .factorRange

/-- A unit with a factor that is tested to be positive and finite. -/
def checkedCreate (d : Dimension) (factor : Double) : Except AlgebraError MeasureUnit :=
  if factor.isPositiveFinite then .ok ⟨d, factor⟩ else .error .factorOutOfRange

/-- Powers up to this size multiply one factor at a time; larger ones square. -/
def steppedPowers : Nat := 128

/-- A whole power of a factor; a negative one is the reciprocal of the positive one. -/
def factorPower (factor : Double) (n : Int) : Double :=
  let magnitude :=
    if n.natAbs ≤ steppedPowers then Binary.multiplyRepeatedly .one factor n.natAbs
    else Binary.squareMultiply .one factor n.natAbs
  if n < 0 then .one / magnitude else magnitude

/-! ### Algebra under a contract -/

/-- Exponents add, factors multiply. -/
def multiply (u v : MeasureUnit) : Except Fault MeasureUnit := do
  let dimension ← u.dimension.mul v.dimension
  create dimension (u.factor * v.factor)

/-- Exponents subtract, factors divide. -/
def divide (u v : MeasureUnit) : Except Fault MeasureUnit := do
  let dimension ← u.dimension.div v.dimension
  create dimension (u.factor / v.factor)

/-- Exponents are multiplied by `n`, the factor is raised to it. -/
def raise (u : MeasureUnit) (n : Int) : Except Fault MeasureUnit := do
  let dimension ← u.dimension.pow n
  create dimension (factorPower u.factor n)

/-- The same dimension with the factor multiplied by a positive finite number. -/
def scale (u : MeasureUnit) (k : Double) : Except Fault MeasureUnit :=
  if k.isPositiveFinite then create u.dimension (u.factor * k) else .error .scaleArgument

/-- Scales by the multiplier of a metric prefix. -/
def applyPrefix (u : MeasureUnit) (p : MetricPrefix) : Except Fault MeasureUnit :=
  u.scale p.multiplier

/-- One divided by the unit. -/
def recip (u : MeasureUnit) : Except Fault MeasureUnit := one.divide u

/-! ### Checked algebra -/

def checkedMultiply (u v : MeasureUnit) : Except AlgebraError MeasureUnit :=
  match u.dimension.mul? v.dimension with
  | some dimension => checkedCreate dimension (u.factor * v.factor)
  | none => .error .exponentOverflow

def checkedDivide (u v : MeasureUnit) : Except AlgebraError MeasureUnit :=
  match u.dimension.div? v.dimension with
  | some dimension => checkedCreate dimension (u.factor / v.factor)
  | none => .error .exponentOverflow

def checkedRaise (u : MeasureUnit) (n : Int) : Except AlgebraError MeasureUnit :=
  match u.dimension.pow? n with
  | some dimension => checkedCreate dimension (factorPower u.factor n)
  | none => .error .exponentOverflow

def checkedScale (u : MeasureUnit) (k : Double) : Except AlgebraError MeasureUnit :=
  if k.isPositiveFinite then checkedCreate u.dimension (u.factor * k) else .error .factorOutOfRange

/-! ### Relations -/

/-- Units of one dimension can be converted into each other, whatever their factors. -/
def isCompatible (u v : MeasureUnit) : Bool := u.dimension = v.dimension

/-- Structural identity: the same exponents and the very same factor. -/
def sameAs (u v : MeasureUnit) : Bool := u = v

/-- Equality of dimensions and numeric equality of factors. -/
def numericEq (u v : MeasureUnit) : Bool :=
  u.dimension = v.dimension && u.factor.numericEq v.factor

def isDimensionless (u : MeasureUnit) : Bool := u.dimension.isDimensionless

/-! ### Written forms -/

/-- The factor, unless it is one, before the dimension in coherent units, unless there is none. -/
def text (u : MeasureUnit) : String :=
  if u.factor.numericEq .one then u.dimension.siSymbol
  else if u.isDimensionless then u.factor.text
  else u.factor.text ++ " " ++ u.dimension.siSymbol

/-- The unit as a structural dump. -/
def inspect (u : MeasureUnit) : String :=
  String.join ["UnitDef \x7b dimension: ", u.dimension.inspect, ", factor: ",
    Layout.inspect.write u.factor, " \x7d"]

/-! ### Small laws -/

theorem sameAs_iff {u v : MeasureUnit} : u.sameAs v = true ↔ u = v := by
  simp [sameAs]

theorem valid_of_checkedCreate {d : Dimension} {factor : Double} {u : MeasureUnit}
    (h : checkedCreate d factor = .ok u) : u.Valid := by
  simp only [checkedCreate] at h
  split at h
  · next positive =>
    simp only [Except.ok.injEq] at h
    subst h
    exact positive
  · simp at h

theorem valid_of_create {d : Dimension} {factor : Double} {u : MeasureUnit}
    (h : create d factor = .ok u) : u.Valid := by
  unfold create at h
  split at h
  · next positive =>
    cases h
    exact positive
  · cases h

/-- Products, quotients and powers test their factor last. -/
theorem valid_of_bind_create {result : Except Fault Dimension} {factor : Double} {u : MeasureUnit}
    (h : (result.bind fun d => create d factor) = .ok u) : u.Valid := by
  cases result with
  | error f => cases h
  | ok d => exact valid_of_create h

/-- The unchecked scaling tests the same factor as the checked one. -/
theorem valid_of_applyPrefix {u v : MeasureUnit} {p : MetricPrefix} (h : u.applyPrefix p = .ok v) :
    v.Valid := by
  unfold applyPrefix scale at h
  split at h
  · exact valid_of_create h
  · cases h

end MeasureUnit

end Metrology
