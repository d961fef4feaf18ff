/-
Module: Metrology.Proofs.BinaryScales
Layer: Proofs
Purpose: Units whose factor is a power of two, subnormal ones included. Such a unit is six integers:
  the exponents of the five base quantities, and that of two. Where a checked operation has a result
  it adds, subtracts or multiplies these integers exactly, whichever way a power is computed; so
  the laws of a commutative group hold between results, bit for bit.
Imports: Mathlib.Algebra.Group.Prod, Metrology.Proofs.CheckedAlgebra, Metrology.Proofs.FactorPower,
  Metrology.Proofs.Outcome
Main exports: MeasureUnit.HasBinaryScale, MeasureUnit.Represents, MeasureUnit.Represents.unique,
  MeasureUnit.Represents.product, MeasureUnit.Represents.quotient, MeasureUnit.Represents.power,
  MeasureUnit.binaryScale_laws
-/
import Mathlib.Algebra.Group.Prod
import Metrology.Proofs.CheckedAlgebra
import Metrology.Proofs.FactorPower
import Metrology.Proofs.Outcome

namespace Metrology

namespace MeasureUnit

variable {u v w r : MeasureUnit} {n : ℤ}

/-- The factor is an integer power of two. -/
def HasBinaryScale (u : MeasureUnit) : Prop := ∃ e : ℤ, u.factor.Denotes (2 ^ e)

/-- The unit of a dimension with a single bit among the units of its factor. -/
def ofBit (d : Dimension) (i : Nat) (h : i < 2098 := by decide) : MeasureUnit :=
  ⟨d, .finite false (2 ^ i) (Width.holds_two_pow h)⟩

theorem hasBinaryScale_ofBit (d : Dimension) (i : Nat) (h : i < 2098) :
    (ofBit d i h).HasBinaryScale :=
  ⟨i - Width.double.scale, Binary.denotes_two_zpow_iff.2 ⟨i, _, rfl, by omega⟩⟩

/-- The exponents of the base quantities, and that of two. -/
abbrev ScaledVector := ExponentVector × ℤ

/-- The unit is the product of these powers. -/
structure Represents (u : MeasureUnit) (g : ScaledVector) : Prop where
  exponent : u.dimension.exponent = g.1
  factor : u.factor.Denotes (2 ^ g.2)

theorem HasBinaryScale.exists_represents (h : u.HasBinaryScale) : ∃ g, u.Represents g := by
  obtain ⟨e, factor⟩ := h
  exact ⟨(u.dimension.exponent, e), rfl, factor⟩

namespace Represents

variable {g h : ScaledVector}

/-- Units of the same powers are the same, factors included. -/
theorem unique (hu : u.Represents g) (hv : v.Represents g) : u = v := by
  have dimension : u.dimension = v.dimension :=
    Dimension.ext_exponent fun q => by rw [hu.exponent, hv.exponent]
  have factor : u.factor = v.factor := hu.factor.unique hv.factor
  cases u
  cases v
  cases dimension
  cases factor
  rfl

/-- The factor of a result is finite and not zero, since it has been tested. -/
theorem of_checkedUnit {exponents : ExponentVector} {factor : Double}
    (computed : checkedUnit exponents factor = .ok r) (same : exponents = g.1)
    (exact : factor.IsNonzero → factor.Denotes (2 ^ g.2)) : r.Represents g := by
  obtain ⟨exponent, rfl, valid⟩ := checkedUnit_eq_ok_iff.1 computed
  exact ⟨exponent.trans same, exact (Binary.isNonzero_of_isPositiveFinite valid)⟩

theorem product (hu : u.Represents g) (hv : v.Represents h)
    (computed : u.checkedMultiply v = .ok r) : r.Represents (g + h) := by
  refine of_checkedUnit computed ?_ (hu.factor.two_zpow_mul hv.factor)
  rw [hu.exponent, hv.exponent]
  rfl

theorem quotient (hu : u.Represents g) (hv : v.Represents h)
    (computed : u.checkedDivide v = .ok r) : r.Represents (g - h) := by
  refine of_checkedUnit computed ?_ (hu.factor.two_zpow_div hv.factor)
  rw [hu.exponent, hv.exponent]
  rfl

theorem power (hu : u.Represents g) (computed : u.checkedRaise n = .ok r) :
    r.Represents (n • g) := by
  rw [checkedRaise_eq] at computed
  refine of_checkedUnit computed ?_ fun nonzero => ?_
  · rw [hu.exponent]
    funext q
    exact mul_comm _ _
  · have exact := denotes_factorPower hu.factor nonzero
    rwa [mul_comm] at exact

end Represents

/-- The laws of a commutative group for units whose factors are powers of two: wherever both sides
    of one have a result, these are the same unit. -/
theorem binaryScale_laws (hu : u.HasBinaryScale) (hv : v.HasBinaryScale) (hw : w.HasBinaryScale) :
    (∀ l r, (u.checkedMultiply v).bind (·.checkedMultiply w) = .ok l →
      (v.checkedMultiply w).bind u.checkedMultiply = .ok r → l.sameAs r = true) ∧
    (∀ l, (u.checkedMultiply v).bind (·.checkedDivide v) = .ok l → l.sameAs u = true) ∧
    (∀ (m n : ℤ) (l r),
      ((u.checkedRaise m).bind fun p => (u.checkedRaise n).bind p.checkedMultiply) = .ok l →
      u.checkedRaise (m + n) = .ok r → l.sameAs r = true) ∧
    (∀ (m n : ℤ) (l r), (u.checkedRaise m).bind (·.checkedRaise n) = .ok l →
      u.checkedRaise (m * n) = .ok r → l.sameAs r = true) := by
  obtain ⟨g, hu⟩ := hu.exists_represents
  obtain ⟨h, hv⟩ := hv.exists_represents
  obtain ⟨k, hw⟩ := hw.exists_represents
  simp only [sameAs_iff]
  refine ⟨?_, ?_, ?_, ?_⟩
  · intro l r left right
    obtain ⟨uv, product, left⟩ := bind_eq_ok_iff.1 left
    obtain ⟨vw, product', right⟩ := bind_eq_ok_iff.1 right
    have leftVector := (hu.product hv product).product hw left
    have rightVector := hu.product (hv.product hw product') right
    rw [← add_assoc] at rightVector
    exact leftVector.unique rightVector
  · intro l left
    obtain ⟨uv, product, left⟩ := bind_eq_ok_iff.1 left
    have leftVector := (hu.product hv product).quotient hv left
    rw [add_sub_cancel_right] at leftVector
    exact leftVector.unique hu
  · intro m n l r left right
    obtain ⟨p, power, rest⟩ := bind_eq_ok_iff.1 left
    obtain ⟨q, power', left⟩ := bind_eq_ok_iff.1 rest
    have leftVector := (hu.power power).product (hu.power power') left
    rw [← add_zsmul] at leftVector
    exact leftVector.unique (hu.power right)
  · intro m n l r left right
    obtain ⟨p, power, left⟩ := bind_eq_ok_iff.1 left
    have leftVector := (hu.power power).power left
    rw [← mul_zsmul, mul_comm] at leftVector
    exact leftVector.unique (hu.power right)

/-- One unit is subnormal, and powers past the limit of repeated multiplication are squared. -/
theorem binaryScale_laws_subnormal :
    (∃ l r, ((ofBit .dimensionless 1072).checkedMultiply (ofBit (.base .time) 4)).bind
        (·.checkedMultiply (ofBit (.base .mass) 2074)) = .ok l ∧
      ((ofBit (.base .time) 4).checkedMultiply (ofBit (.base .mass) 2074)).bind
        (ofBit .dimensionless 1072).checkedMultiply = .ok r ∧ l.sameAs r = true) ∧
    (∃ l, ((ofBit .dimensionless 1072).checkedMultiply (ofBit (.base .time) 4)).bind
        (·.checkedDivide (ofBit (.base .time) 4)) = .ok l ∧
      l.sameAs (ofBit .dimensionless 1072) = true) ∧
    (∃ l r, (((ofBit .dimensionless 1072).checkedRaise 200).bind fun p =>
        ((ofBit .dimensionless 1072).checkedRaise (-2)).bind p.checkedMultiply) = .ok l ∧
      (ofBit .dimensionless 1072).checkedRaise (200 + -2) = .ok r ∧ l.sameAs r = true) ∧
    (∃ l r, ((ofBit .dimensionless 1072).checkedRaise 200).bind (·.checkedRaise (-2)) = .ok l ∧
      (ofBit .dimensionless 1072).checkedRaise (200 * -2) = .ok r ∧ l.sameAs r = true) := by
  obtain ⟨associates, cancels, adds, multiplies⟩ :=
    binaryScale_laws (hasBinaryScale_ofBit .dimensionless 1072 (by decide))
      (hasBinaryScale_ofBit (.base .time) 4 (by decide))
      (hasBinaryScale_ofBit (.base .mass) 2074 (by decide))
  have product : ((ofBit .dimensionless 1072).checkedMultiply (ofBit (.base .time) 4)).bind
      (·.checkedMultiply (ofBit (.base .mass) 2074)) = .ok (ofBit (.ofList 0 1 1 0 0) 1002) := by
    decide +kernel
  have product' : ((ofBit (.base .time) 4).checkedMultiply (ofBit (.base .mass) 2074)).bind
      (ofBit .dimensionless 1072).checkedMultiply = .ok (ofBit (.ofList 0 1 1 0 0) 1002) := by
    decide +kernel
  have quotient : ((ofBit .dimensionless 1072).checkedMultiply (ofBit (.base .time) 4)).bind
      (·.checkedDivide (ofBit (.base .time) 4)) = .ok (ofBit .dimensionless 1072) := by
    decide +kernel
  have sum : (((ofBit .dimensionless 1072).checkedRaise 200).bind fun p =>
      ((ofBit .dimensionless 1072).checkedRaise (-2)).bind p.checkedMultiply) =
        .ok (ofBit .dimensionless 678) := by
    decide +kernel
  have power : (ofBit .dimensionless 1072).checkedRaise (200 + -2) =
      .ok (ofBit .dimensionless 678) := by
    decide +kernel
  have tower : ((ofBit .dimensionless 1072).checkedRaise 200).bind (·.checkedRaise (-2)) =
      .ok (ofBit .dimensionless 1874) := by
    decide +kernel
  have power' : (ofBit .dimensionless 1072).checkedRaise (200 * -2) =
      .ok (ofBit .dimensionless 1874) := by
    decide +kernel
  exact ⟨⟨_, _, product, product', associates _ _ product product'⟩,
    ⟨_, quotient, cancels _ quotient⟩, ⟨_, _, sum, power, adds _ _ _ _ sum power⟩,
    ⟨_, _, tower, power', multiplies _ _ _ _ tower power'⟩⟩

end MeasureUnit

end Metrology
