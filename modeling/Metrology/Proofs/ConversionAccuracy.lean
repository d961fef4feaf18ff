/-
Module: Metrology.Proofs.ConversionAccuracy
Layer: Proofs
Purpose: A value that is converted to another unit and back. Four operations are rounded: the two
  ratios of the factors and the two products. Where all four results are normal, each is off by a
  factor `1 + δ`; the exact ratios cancel, so the value is what comes back times four such factors.
  Their product differs from one by little more than four times the roundoff.
Imports: Mathlib.Tactic.LinearCombination, Mathlib.Tactic.NormNum, Metrology.Conversion,
  Metrology.Proofs.RoundingError
Main exports: abs_mul_sub_one_le, abs_sub_le_of_four_roundoffs, MeasureUnit.factor_ratio_rounds,
  convertValue_eq, convertValue_roundTrip
-/
import Mathlib.Tactic.LinearCombination
import Mathlib.Tactic.NormNum
import Metrology.Conversion
import Metrology.Proofs.RoundingError

namespace Metrology

/-! ### Factors near one -/

/-- Distances from one add up in a product, but for their own product. -/
theorem abs_mul_sub_one_le {p q c d : ℚ} (hp : |p - 1| ≤ c) (hq : |q - 1| ≤ d) :
    |p * q - 1| ≤ c + d + c * d := by
  have split : p * q - 1 = (p - 1) + (q - 1) + (p - 1) * (q - 1) := by ring
  have cross : |(p - 1) * (q - 1)| ≤ c * d := by
    rw [abs_mul]
    exact mul_le_mul hp hq (abs_nonneg _) (le_trans (abs_nonneg _) hp)
  calc |p * q - 1| ≤ |p - 1| + |q - 1| + |(p - 1) * (q - 1)| := by
        rw [split]
        exact abs_add_three _ _ _
    _ ≤ c + d + c * d := by linarith

theorem Width.double_roundoff : Width.double.roundoff = 1 / 2 ^ 53 := rfl

/-- Four roundoffs relative to the result are less than eight relative to the exact number. -/
theorem abs_sub_le_of_four_roundoffs {x y δ₁ δ₂ δ₃ δ₄ : ℚ} (h₁ : |δ₁| ≤ Width.double.roundoff)
    (h₂ : |δ₂| ≤ Width.double.roundoff) (h₃ : |δ₃| ≤ Width.double.roundoff)
    (h₄ : |δ₄| ≤ Width.double.roundoff)
    (exact : x = y * ((1 + δ₁) * (1 + δ₂) * ((1 + δ₃) * (1 + δ₄)))) :
    |y - x| ≤ 1 / 2 ^ 50 * |x| := by
  have near : ∀ {δ : ℚ}, |δ| ≤ Width.double.roundoff → |(1 + δ) - 1| ≤ 1 / 2 ^ 53 := by
    intro δ h
    rwa [add_sub_cancel_left, ← Width.double_roundoff]
  have all := abs_mul_sub_one_le (abs_mul_sub_one_le (near h₁) (near h₂))
    (abs_mul_sub_one_le (near h₃) (near h₄))
  generalize (1 + δ₁) * (1 + δ₂) * ((1 + δ₃) * (1 + δ₄)) = p at exact all
  have five : |p - 1| ≤ 5 / 2 ^ 53 := le_trans all (by norm_num)
  have positive : 1 - 5 / 2 ^ 53 ≤ p := by linarith [(abs_le.1 five).1]
  calc |y - x| = |y| * |p - 1| := by
        rw [exact, abs_sub_comm, ← abs_mul]
        ring_nf
    _ ≤ |y| * (1 / 2 ^ 50 * p) := by
        refine mul_le_mul_of_nonneg_left ?_ (abs_nonneg y)
        refine le_trans five ?_
        linarith
    _ = 1 / 2 ^ 50 * |x| := by
        rw [exact, abs_mul, abs_of_nonneg (le_trans (by norm_num) positive)]
        ring

/-! ### Round trips -/

namespace MeasureUnit

variable {u v : MeasureUnit}

theorem toRat_factor_ne_zero (valid : u.Valid) : u.factor.toRat ≠ 0 := by
  obtain ⟨s, n, holds, factor, nonzero⟩ := Binary.isNonzero_of_isPositiveFinite valid
  rw [factor]
  exact mt Binary.toRat_eq_zero_iff.1 nonzero

/-- The ratio of two factors is rounded once. -/
theorem factor_ratio_rounds (hu : u.Valid) (hv : v.Valid) :
    (u.factor / v.factor).Rounds (u.factor.toRat / v.factor.toRat) :=
  Binary.div_rounds (Binary.isFinite_of_isPositiveFinite hu)
    (Binary.isNonzero_of_isPositiveFinite hv)

theorem conversionFactor_eq (compatible : u.isCompatible v = true) :
    u.conversionFactor v = .ok (u.factor / v.factor) :=
  if_pos compatible

theorem isCompatible_comm (u v : MeasureUnit) : u.isCompatible v = v.isCompatible u := by
  simp only [isCompatible, eq_comm]

end MeasureUnit

theorem convertValue_eq {u v : MeasureUnit} (compatible : u.isCompatible v = true) (x : Double) :
    convertValue x u v = .ok (x * (u.factor / v.factor)) := by
  rw [convertValue, MeasureUnit.conversionFactor_eq compatible]
  rfl

/-- A value converted to a compatible unit and back is finite and off by at most `2 ^ (-50)`,
    relative to itself, if both ratios and both converted values are normal. -/
theorem convertValue_roundTrip {a b : MeasureUnit} (ha : a.Valid) (hb : b.Valid)
    (compatible : a.isCompatible b = true) (v : Double) :
    ∃ ratio inverse there back,
      a.conversionFactor b = .ok ratio ∧ b.conversionFactor a = .ok inverse ∧
      convertValue v a b = .ok there ∧ convertValue there b a = .ok back ∧
      (ratio.isNormal = true → inverse.isNormal = true → there.isNormal = true →
        back.isNormal = true →
          v.isFinite = true ∧ |back.toRat - v.toRat| ≤ 1 / 2 ^ 50 * |v.toRat|) := by
  have compatible' : b.isCompatible a = true := by rwa [MeasureUnit.isCompatible_comm]
  refine ⟨_, _, _, _, MeasureUnit.conversionFactor_eq compatible,
    MeasureUnit.conversionFactor_eq compatible', convertValue_eq compatible v,
    convertValue_eq compatible' _, ?_⟩
  intro normalRatio normalInverse normalThere normalBack
  obtain ⟨δ₁, bound₁, ratio⟩ := (MeasureUnit.factor_ratio_rounds ha hb).approximates normalRatio
  obtain ⟨δ₂, bound₂, inverse⟩ := (MeasureUnit.factor_ratio_rounds hb ha).approximates normalInverse
  obtain ⟨δ₃, bound₃, there⟩ := Binary.mul_approximates normalThere
  obtain ⟨δ₄, bound₄, back⟩ := Binary.mul_approximates normalBack
  refine ⟨(Binary.of_isFinite_mul (Binary.isFinite_of_isNormal normalThere)).1,
    abs_sub_le_of_four_roundoffs bound₁ bound₂ bound₃ bound₄ ?_⟩
  have cancel : a.factor.toRat / b.factor.toRat * (b.factor.toRat / a.factor.toRat) = 1 := by
    have nonzeroA := MeasureUnit.toRat_factor_ne_zero ha
    have nonzeroB := MeasureUnit.toRat_factor_ne_zero hb
    field_simp
  calc v.toRat = v.toRat * (a.factor / b.factor).toRat * (b.factor / a.factor).toRat *
          ((1 + δ₁) * (1 + δ₂)) := by
        rw [ratio, inverse] at cancel
        linear_combination (-v.toRat) * cancel
    _ = (v * (a.factor / b.factor)).toRat * (b.factor / a.factor).toRat * (1 + δ₃) *
          ((1 + δ₁) * (1 + δ₂)) := by
        rw [there]
        ring
    _ = (v * (a.factor / b.factor) * (b.factor / a.factor)).toRat *
          ((1 + δ₁) * (1 + δ₂) * ((1 + δ₃) * (1 + δ₄))) := by
        rw [back]
        ring

/-- Eleven tenths of a foot do not come back from nautical miles, but come near. -/
theorem convertValue_roundTrip_foot :
    let foot : MeasureUnit := ⟨.base .length, Decimal.toBinary .double false ⟨3048, -4⟩⟩
    let mile : MeasureUnit := ⟨.base .length, .ofNat 1852⟩
    let v : Double := Decimal.toBinary .double false ⟨11, -1⟩
    foot.Valid ∧ mile.Valid ∧ foot.isCompatible mile = true ∧
      (foot.factor / mile.factor).isNormal = true ∧ (mile.factor / foot.factor).isNormal = true ∧
      ∃ there back, convertValue v foot mile = .ok there ∧ convertValue there mile foot = .ok back ∧
        there.isNormal = true ∧ back.isNormal = true ∧ back ≠ v ∧
        |back.toRat - v.toRat| ≤ 1 / 2 ^ 50 * |v.toRat| := by
  intro foot mile v
  have hu : foot.Valid := by decide +kernel
  have hv : mile.Valid := by decide +kernel
  have compatible : foot.isCompatible mile = true := by decide +kernel
  have ratioNormal : (foot.factor / mile.factor).isNormal = true := by decide +kernel
  have inverseNormal : (mile.factor / foot.factor).isNormal = true := by decide +kernel
  have thereNormal : (v * (foot.factor / mile.factor)).isNormal = true := by decide +kernel
  have backNormal :
      (v * (foot.factor / mile.factor) * (mile.factor / foot.factor)).isNormal = true := by
    decide +kernel
  have different : v * (foot.factor / mile.factor) * (mile.factor / foot.factor) ≠ v := by
    decide +kernel
  have compatible' : mile.isCompatible foot = true := by decide +kernel
  -- from here on only these facts about the three values matter, not how they are computed
  clear_value foot mile v
  refine ⟨hu, hv, compatible, ratioNormal, inverseNormal, ?_⟩
  obtain ⟨ratio, inverse, there, back, isRatio, isInverse, isThere, isBack, near⟩ :=
    convertValue_roundTrip hu hv compatible v
  cases isRatio.symm.trans (MeasureUnit.conversionFactor_eq compatible)
  cases isInverse.symm.trans (MeasureUnit.conversionFactor_eq compatible')
  cases isThere.symm.trans (convertValue_eq compatible v)
  cases isBack.symm.trans (convertValue_eq compatible' _)
  exact ⟨_, _, isThere, isBack, thereNormal, backNormal, different,
    (near ratioNormal inverseNormal thereNormal backNormal).2⟩

end Metrology
