/-
Module: Metrology.Proofs.RoundingError
Layer: Proofs
Purpose: How far a rounded operation is off, in rational numbers. A rounded number of units is off
  by half a step. Where all bits of the precision are there this is the roundoff, relative to the
  result: the exact product or quotient of two values is the rounded one times `1 + δ`. Without that
  condition half a unit has to be added. What is rounded well below the limit does not overflow.
Imports: Mathlib.Data.Nat.Cast.Order.Field, Mathlib.Tactic.FieldSimp, Mathlib.Tactic.Linarith,
  Mathlib.Tactic.NormNum, Mathlib.Tactic.Positivity, Metrology.Proofs.NearestUnits,
  Metrology.Proofs.PowersOfTwo
Main exports: Width.roundoff, Width.abs_roundUnits_sub_le, Width.abs_roundUnits_sub_le_of_normal,
  Binary.toRat, Binary.isNormal, Binary.Rounds, Binary.mul_rounds, Binary.div_rounds,
  Binary.convert_rounds, Binary.Rounds.approximates, Binary.Rounds.abs_toRat_le,
  Binary.Rounds.abs_toRat_le_of_small, Binary.Rounds.isFinite
-/
import Mathlib.Data.Nat.Cast.Order.Field
import Mathlib.Tactic.FieldSimp
import Mathlib.Tactic.Linarith
import Mathlib.Tactic.NormNum
import Mathlib.Tactic.Positivity
import Metrology.Proofs.NearestUnits
import Metrology.Proofs.PowersOfTwo

namespace Metrology

namespace Width

variable {w : Width} {num den : Nat}

/-- Half the relative distance of neighbouring significands. -/
def roundoff (w : Width) : ℚ := 1 / 2 ^ w.precision

theorem roundoff_nonneg (w : Width) : 0 ≤ w.roundoff := by
  unfold roundoff
  positivity

theorem roundoff_le (w : Width) : w.roundoff ≤ 1 / 100 := by
  cases w <;> norm_num [roundoff, precision]

theorem two_pow_pred_mul_roundoff (w : Width) : 2 ^ (w.precision - 1) * w.roundoff = 1 / 2 := by
  have split : (2 : ℚ) ^ w.precision = 2 ^ (w.precision - 1) * 2 := by
    rw [← pow_succ, Nat.sub_add_cancel w.precision_pos]
  rw [roundoff, split]
  field_simp

/-- A rounded number of units is off by half a step. -/
theorem abs_roundUnits_sub_le_step (num : Nat) (pos : 0 < den) :
    |(w.roundUnits num den : ℚ) - num / den| ≤ ((2 ^ w.shiftOf (num / den) : Nat) : ℚ) / 2 := by
  obtain ⟨above, below⟩ := @roundUnits_near w den num pos
  have posDen : (0 : ℚ) < den := by exact_mod_cast pos
  have exact : (num : ℚ) / den * den = num := div_mul_cancel₀ _ (ne_of_gt posDen)
  generalize 2 ^ w.shiftOf (num / den) = step at above below
  have upper : 2 * ((w.roundUnits num den : ℚ) * den) ≤ 2 * num + den * step := by
    exact_mod_cast above
  have lower : 2 * (num : ℚ) ≤ 2 * ((w.roundUnits num den : ℚ) * den) + den * step := by
    exact_mod_cast below
  rw [← exact] at upper lower
  rw [abs_le]
  constructor
  · refine le_of_mul_le_mul_right ?_ posDen
    linarith
  · refine le_of_mul_le_mul_right ?_ posDen
    linarith

/-- Half a step of a number with all bits of the precision is at most its roundoff. -/
theorem half_step_le {step : Nat} {q : ℚ} (bits : ((2 ^ (w.precision - 1) * step : Nat) : ℚ) ≤ q) :
    (step : ℚ) / 2 ≤ w.roundoff * q := by
  calc (step : ℚ) / 2 = w.roundoff * ((2 ^ (w.precision - 1) * step : Nat) : ℚ) := by
        push_cast
        rw [← mul_assoc, mul_comm w.roundoff, two_pow_pred_mul_roundoff]
        ring
    _ ≤ w.roundoff * q := mul_le_mul_of_nonneg_left bits w.roundoff_nonneg

/-- A rounded number of units is off by the roundoff of the exact one and half a unit. -/
theorem abs_roundUnits_sub_le (num : Nat) (pos : 0 < den) :
    |(w.roundUnits num den : ℚ) - num / den| ≤ w.roundoff * (num / den) + 1 / 2 := by
  refine le_trans (abs_roundUnits_sub_le_step num pos) ?_
  have exact : ((num / den : Nat) : ℚ) ≤ num / den := Nat.cast_div_le
  by_cases shifted : w.shiftOf (num / den) = 0
  · have nonneg : 0 ≤ w.roundoff * ((num : ℚ) / den) := by
      have roundoff := w.roundoff_nonneg
      positivity
    rw [shifted, Nat.pow_zero, Nat.cast_one]
    linarith
  · have bits : ((2 ^ (w.precision - 1) * 2 ^ w.shiftOf (num / den) : Nat) : ℚ) ≤ num / den :=
      le_trans (by exact_mod_cast two_pow_shiftOf_le shifted) exact
    have half := half_step_le bits
    linarith

/-- With all bits of the precision it is off by its own roundoff. -/
theorem abs_roundUnits_sub_le_of_normal (pos : 0 < den)
    (normal : 2 ^ (w.precision - 1) ≤ w.roundUnits num den) :
    |(w.roundUnits num den : ℚ) - num / den| ≤ w.roundoff * w.roundUnits num den := by
  refine le_trans (abs_roundUnits_sub_le_step num pos) (half_step_le ?_)
  by_cases shifted : w.shiftOf (num / den) = 0
  · rw [shifted, Nat.pow_zero, Nat.mul_one]
    exact_mod_cast normal
  · -- the first number with these bits is not above the exact one, so rounding stays there
    have short : w.Short (2 ^ (w.precision - 1) * 2 ^ w.shiftOf (num / den)) := by
      rw [← Nat.pow_add]
      exact short_two_pow _
    exact_mod_cast le_roundUnits_of_short short (two_pow_shiftOf_le shifted)

end Width

namespace Binary

variable {w : Width} {x y : Binary w} {negative : Bool} {num den : Nat}

/-! ### Rational values -/

/-- The factor that a sign stands for. -/
def signFactor (negative : Bool) : ℚ := if negative then -1 else 1

/-- The number that a finite value denotes. -/
def toRat : Binary w → ℚ
  | .finite negative units _ => signFactor negative * (units / w.one)
  | _ => 0

/-- Finite, and with all bits of the precision. -/
def isNormal : Binary w → Bool
  | .finite _ units _ => 2 ^ (w.precision - 1) ≤ units
  | _ => false

theorem signFactor_xor (s t : Bool) : signFactor (s ^^ t) = signFactor s * signFactor t := by
  cases s <;> cases t <;> simp [signFactor]

theorem abs_signFactor_mul (s : Bool) (q : ℚ) : |signFactor s * q| = |q| := by
  cases s <;> simp [signFactor]

theorem signFactor_div (s t : Bool) : signFactor s / signFactor t = signFactor (s ^^ t) := by
  cases s <;> cases t <;> simp [signFactor]

theorem toRat_eq_zero_iff {s : Bool} {n : Nat} {holds : w.Holds n} :
    (finite s n holds).toRat = 0 ↔ n = 0 := by
  have sign : signFactor s ≠ 0 := by cases s <;> simp [signFactor]
  simp [toRat, sign, Nat.ne_of_gt w.one_pos]

theorem isFinite_of_isNormal (h : x.isNormal = true) : x.isFinite = true := by
  cases x with
  | nan | infinite => cases h
  | finite s n holds => rfl

theorem one_pos_rat (w : Width) : (0 : ℚ) < w.one := by exact_mod_cast w.one_pos

/-- A normal value is not zero. -/
theorem units_ne_zero_of_isNormal {n : Nat} {holds : w.Holds n}
    (h : (finite negative n holds).isNormal = true) : n ≠ 0 := by
  rintro rfl
  exact absurd (Nat.two_pow_pos (w.precision - 1)) (Nat.not_lt.2 (of_decide_eq_true h))

/-! ### One rounding -/

/-- The value comes of a rational number by rounding it once. -/
def Rounds (x : Binary w) (q : ℚ) : Prop :=
  ∃ negative num den, 0 < den ∧ x = ofRatio negative num den ∧
    q = signFactor negative * (num / den / w.one)

theorem mul_rounds (hx : x.isFinite = true) (hy : y.isFinite = true) :
    (x * y).Rounds (x.toRat * y.toRat) := by
  cases x with
  | nan | infinite => cases hx
  | finite s m holdsM =>
      cases y with
      | nan | infinite => cases hy
      | finite t n holdsN =>
          have unit := one_ne_zero_units w
          refine ⟨s ^^ t, m * n, w.one, w.one_pos, rfl, ?_⟩
          rw [toRat, toRat, signFactor_xor]
          push_cast
          field_simp

theorem div_rounds (hx : x.isFinite = true) (hy : y.IsNonzero) :
    (x / y).Rounds (x.toRat / y.toRat) := by
  obtain ⟨t, n, holdsN, rfl, nonzero⟩ := hy
  cases x with
  | nan | infinite => cases hx
  | finite s m holdsM =>
      have unit := one_ne_zero_units w
      have divisor : (n : ℚ) ≠ 0 := Nat.cast_ne_zero.2 nonzero
      refine ⟨s ^^ t, m * w.one, n, Nat.pos_of_ne_zero nonzero, ?_, ?_⟩
      · change div (.finite s m holdsM) (.finite t n holdsN) = _
        simp only [div, nonzero, if_false]
      · rw [toRat, toRat, mul_div_mul_comm, signFactor_div]
        push_cast
        field_simp

theorem convert_rounds {v : Width} {x : Binary v} (hx : x.isFinite = true) :
    (x.convert w).Rounds x.toRat := by
  cases x with
  | nan | infinite => cases hx
  | finite s m holds =>
      have unit := one_ne_zero_units w
      have unit' := one_ne_zero_units v
      refine ⟨s, m * w.one, v.one, v.one_pos, rfl, ?_⟩
      rw [toRat]
      push_cast
      field_simp

/-! ### The error of a rounding -/

/-- The number is the value times `1 + δ`, where `δ` is at most the roundoff. -/
def Approximates (x : Binary w) (q : ℚ) : Prop := ∃ δ, |δ| ≤ w.roundoff ∧ q = x.toRat * (1 + δ)

/-- A rounded value with all bits of the precision is off by the roundoff. -/
theorem Rounds.approximates {q : ℚ} (h : x.Rounds q) (normal : x.isNormal = true) :
    x.Approximates q := by
  obtain ⟨negative, num, den, pos, rfl, rfl⟩ := h
  unfold ofRatio ofRounded at normal ⊢
  split at normal
  · next holds =>
      have bits : 2 ^ (w.precision - 1) ≤ w.roundUnits num den := of_decide_eq_true normal
      have nonzero : (w.roundUnits num den : ℚ) ≠ 0 :=
        Nat.cast_ne_zero.2 (units_ne_zero_of_isNormal normal)
      have error := Width.abs_roundUnits_sub_le_of_normal pos bits
      have nonneg : (0 : ℚ) ≤ w.roundUnits num den := Nat.cast_nonneg _
      have unit := one_ne_zero_units w
      rw [dif_pos holds]
      refine ⟨(num / den - w.roundUnits num den) / w.roundUnits num den, ?_, ?_⟩
      · rw [abs_div, abs_of_nonneg nonneg, abs_sub_comm]
        exact div_le_of_le_mul₀ nonneg w.roundoff_nonneg error
      · rw [toRat]
        field_simp
        ring
  · cases normal

/-- A normal product approximates the exact one. -/
theorem mul_approximates (normal : (x * y).isNormal = true) :
    (x * y).Approximates (x.toRat * y.toRat) := by
  obtain ⟨finiteX, finiteY⟩ := of_isFinite_mul (isFinite_of_isNormal normal)
  exact (mul_rounds finiteX finiteY).approximates normal

/-- Without the bits of the precision, half a unit is added. -/
theorem Rounds.abs_toRat_le {q : ℚ} (h : x.Rounds q) :
    |x.toRat| ≤ (1 + w.roundoff) * |q| + 1 / 2 / w.one := by
  obtain ⟨negative, num, den, pos, rfl, rfl⟩ := h
  have unit := one_pos_rat w
  have roundoff := w.roundoff_nonneg
  have exact : (0 : ℚ) ≤ num / den / w.one := by positivity
  rw [abs_signFactor_mul, abs_of_nonneg exact]
  unfold ofRatio ofRounded
  split
  · next holds =>
      have error := (abs_le.1 (@Width.abs_roundUnits_sub_le w den num pos)).2
      have nonneg : (0 : ℚ) ≤ w.roundUnits num den / w.one := by positivity
      rw [toRat, abs_signFactor_mul, abs_of_nonneg nonneg]
      calc (w.roundUnits num den : ℚ) / w.one
          ≤ (num / den + (w.roundoff * (num / den) + 1 / 2)) / w.one := by
            gcongr
            linarith
        _ = (1 + w.roundoff) * (num / den / w.one) + 1 / 2 / w.one := by ring
  · change |(0 : ℚ)| ≤ _
    rw [abs_zero]
    positivity

/-- Half a unit is little, and so is the roundoff. -/
theorem Rounds.abs_toRat_le_of_small {q : ℚ} (h : x.Rounds q) :
    |x.toRat| ≤ 101 / 100 * |q| + 1 / 100 := by
  have unit : (100 : ℚ) ≤ w.one := by
    have power : 2 ^ 7 ≤ w.one := Nat.pow_le_pow_right Nat.two_pos (by cases w <;> decide)
    exact_mod_cast Nat.le_trans (by decide) power
  have half : 1 / 2 / (w.one : ℚ) ≤ 1 / 100 := by
    rw [div_le_iff₀ (one_pos_rat w)]
    linarith
  have relative := mul_le_mul_of_nonneg_right w.roundoff_le (abs_nonneg q)
  linarith [h.abs_toRat_le]

/-- A number well below the limit does not overflow. -/
theorem Rounds.isFinite {q : ℚ} (h : x.Rounds q) (below : |q| ≤ 3 / 4 * 2 ^ w.topExponent) :
    x.isFinite = true := by
  obtain ⟨negative, num, den, pos, rfl, rfl⟩ := h
  have unit := one_pos_rat w
  have exact : (0 : ℚ) ≤ num / den / w.one := by positivity
  rw [abs_signFactor_mul, abs_of_nonneg exact, div_le_iff₀ unit] at below
  have limit : (w.limit : ℚ) = 2 ^ w.topExponent * w.one := by exact_mod_cast w.limit_eq
  have large : (4 : ℚ) ≤ w.limit := by
    have power : 2 ^ 2 ≤ w.limit := Nat.pow_le_pow_right Nat.two_pos (by cases w <;> decide)
    exact_mod_cast power
  have error := (abs_le.1 (@Width.abs_roundUnits_sub_le w den num pos)).2
  have product : w.roundoff * (num / den) ≤ 1 / 100 * ((num : ℚ) / den) :=
    mul_le_mul_of_nonneg_right w.roundoff_le (by positivity)
  have rounded : (w.roundUnits num den : ℚ) < w.limit := by linarith
  have holds : w.Holds (w.roundUnits num den) :=
    Width.holds_iff.2 ⟨by exact_mod_cast rounded, Width.short_roundUnits num den⟩
  rw [ofRatio, ofRounded, dif_pos holds]
  rfl

end Binary

end Metrology
