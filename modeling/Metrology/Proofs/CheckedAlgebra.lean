/-
Module: Metrology.Proofs.CheckedAlgebra
Layer: Proofs
Purpose: The checked operations on units as exact vector arithmetic. Products, quotients and powers
  all make a unit of an exponent vector and a factor: the vector is tested first, then the factor.
  So each operation says in one line what it computes, and when and why it has no result.
Imports: Metrology.MeasureUnit
Main exports: Dimension.ofExponents?_eq_none_iff, MeasureUnit.checkedUnit, checkedUnit_eq_ok_iff,
  checkedUnit_eq_overflow_iff, checkedMultiply_eq, checkedDivide_eq, checkedRaise_eq,
  checkedRaise_eq_ok_iff, checkedScale_eq_ok_iff, valid_of_checkedUnit
-/
import Metrology.MeasureUnit

namespace Metrology

/-- Exponents as mathematical integers, one for each base quantity. -/
abbrev ExponentVector := BaseQuantity → Int

namespace ExponentVector

/-- Every exponent can be represented. -/
def InRange (v : ExponentVector) : Prop := ∀ q, -128 ≤ v q ∧ v q ≤ 127

end ExponentVector

namespace Dimension

theorem inRange_exponent (d : Dimension) : ExponentVector.InRange d.exponent := d.exponent_range

/-- A vector has no dimension exactly when one of its exponents cannot be represented. -/
theorem ofExponents?_eq_none_iff {v : ExponentVector} :
    ofExponents? v = none ↔ ¬ExponentVector.InRange v := by
  constructor
  · intro none inRange
    have represented : ∀ q, ∃ x, Exponent.ofInt? (v q) = some x := by
      intro q
      exact Option.isSome_iff_exists.1 (Exponent.ofInt?_isSome_iff.2 (inRange q))
    obtain ⟨l, length⟩ := represented .length
    obtain ⟨t, time⟩ := represented .time
    obtain ⟨m, mass⟩ := represented .mass
    obtain ⟨i, current⟩ := represented .current
    obtain ⟨k, temperature⟩ := represented .temperature
    simp [ofExponents?, ofParts?, length, time, mass, current, temperature] at none
  · intro outside
    cases found : ofExponents? v with
    | none => rfl
    | some d =>
        have same : d.exponent = v := funext (ofExponents?_eq_some_iff.1 found)
        exact absurd (same ▸ d.inRange_exponent) outside

end Dimension

namespace MeasureUnit

/-- The unit of an exponent vector and a factor; the vector is tested before the factor. -/
def checkedUnit (v : ExponentVector) (factor : Double) : Except AlgebraError MeasureUnit :=
  match Dimension.ofExponents? v with
  | some d => checkedCreate d factor
  | none => .error .exponentOverflow

/-! ### Operations as vector arithmetic -/

theorem checkedMultiply_eq (u v : MeasureUnit) :
    u.checkedMultiply v =
      checkedUnit (fun q => u.dimension.exponent q + v.dimension.exponent q)
        (u.factor * v.factor) := rfl

theorem checkedDivide_eq (u v : MeasureUnit) :
    u.checkedDivide v =
      checkedUnit (fun q => u.dimension.exponent q - v.dimension.exponent q)
        (u.factor / v.factor) := rfl

theorem checkedRaise_eq (u : MeasureUnit) (n : Int) :
    u.checkedRaise n =
      checkedUnit (fun q => u.dimension.exponent q * n) (factorPower u.factor n) := by
  rw [checkedRaise, Dimension.pow?_eq]
  rfl

/-! ### Outcomes -/

variable {v : ExponentVector} {factor : Double} {u : MeasureUnit}

theorem checkedCreate_eq_ok_iff {d : Dimension} :
    checkedCreate d factor = .ok u ↔ u.dimension = d ∧ u.factor = factor ∧ u.Valid := by
  constructor
  · intro h
    have valid := valid_of_checkedCreate h
    unfold checkedCreate at h
    split at h
    · cases h
      exact ⟨rfl, rfl, valid⟩
    · cases h
  · rintro ⟨rfl, rfl, valid⟩
    exact if_pos valid

theorem checkedCreate_eq_error_iff {d : Dimension} {cause : AlgebraError} :
    checkedCreate d factor = .error cause ↔
      cause = .factorOutOfRange ∧ factor.isPositiveFinite = false := by
  unfold checkedCreate
  cases factor.isPositiveFinite <;> simp [eq_comm]

theorem checkedUnit_eq_ok_iff :
    checkedUnit v factor = .ok u ↔ u.dimension.exponent = v ∧ u.factor = factor ∧ u.Valid := by
  cases found : Dimension.ofExponents? v with
  | none =>
      have outside := Dimension.ofExponents?_eq_none_iff.1 found
      simp only [checkedUnit, found, reduceCtorEq, false_iff]
      rintro ⟨rfl, _⟩
      exact outside u.dimension.inRange_exponent
  | some d =>
      have same : d.exponent = v := funext (Dimension.ofExponents?_eq_some_iff.1 found)
      have dimensions : u.dimension = d ↔ u.dimension.exponent = v := by
        constructor
        · rintro rfl
          exact same
        · intro equal
          exact Dimension.ext_exponent fun q => by rw [equal, same]
      simp only [checkedUnit, found, checkedCreate_eq_ok_iff, dimensions]

theorem checkedUnit_eq_overflow_iff :
    checkedUnit v factor = .error .exponentOverflow ↔ ¬v.InRange := by
  rw [← Dimension.ofExponents?_eq_none_iff]
  cases found : Dimension.ofExponents? v with
  | none => simp [checkedUnit, found]
  | some d => simp [checkedUnit, found, checkedCreate_eq_error_iff]

/-- A power has the multiplied exponents and the power of the factor. -/
theorem checkedRaise_eq_ok_iff {p : MeasureUnit} {n : Int} :
    u.checkedRaise n = .ok p ↔ p.dimension.exponent = (fun q => u.dimension.exponent q * n) ∧
      p.factor = factorPower u.factor n ∧ p.Valid := by
  rw [checkedRaise_eq]
  exact checkedUnit_eq_ok_iff

theorem checkedScale_eq_ok_iff {k : Double} {scaled : MeasureUnit} :
    u.checkedScale k = .ok scaled ↔
      k.isPositiveFinite = true ∧ scaled.dimension = u.dimension ∧ scaled.factor = u.factor * k ∧
        scaled.Valid := by
  unfold checkedScale
  split
  · next positive => simp [positive, checkedCreate_eq_ok_iff]
  · next other => simp [other]

/-- Scaling leaves the exponents alone, so they cannot be what is wrong. -/
theorem checkedScale_ne_overflow (u : MeasureUnit) (k : Double) :
    u.checkedScale k ≠ .error .exponentOverflow := by
  unfold checkedScale
  split
  · simp [checkedCreate_eq_error_iff]
  · simp

/-! ### Validity -/

/-- The test for the factor is the last thing that a checked operation does, so its result is valid
    whatever the operands were. -/
theorem valid_of_checkedUnit (h : checkedUnit v factor = .ok u) : u.Valid :=
  (checkedUnit_eq_ok_iff.1 h).2.2

theorem valid_of_checkedMultiply {left right : MeasureUnit}
    (h : left.checkedMultiply right = .ok u) : u.Valid := by
  rw [checkedMultiply_eq] at h
  exact valid_of_checkedUnit h

theorem valid_of_checkedDivide {left right : MeasureUnit}
    (h : left.checkedDivide right = .ok u) : u.Valid := by
  rw [checkedDivide_eq] at h
  exact valid_of_checkedUnit h

theorem valid_of_checkedRaise {base : MeasureUnit} {n : Int} (h : base.checkedRaise n = .ok u) :
    u.Valid :=
  (checkedRaise_eq_ok_iff.1 h).2.2

theorem valid_of_checkedScale {base : MeasureUnit} {k : Double} (h : base.checkedScale k = .ok u) :
    u.Valid :=
  (checkedScale_eq_ok_iff.1 h).2.2.2

end MeasureUnit

end Metrology
