/-
Module: Metrology.Proofs.DecimalGrid
Layer: Proofs
Purpose: Numbers on decimal grids. The leading place of a quotient is the floor of its base-ten
  logarithm, and the logarithm that is taken in double precision is that place or, just below a
  power of ten, the next one. A quotient rounded half to even on a grid is the nearest multiple of
  the grid's step, and there is only one multiple that is nearer than half a step.
Imports: Mathlib.Data.Int.Log, Mathlib.Data.Rat.Floor, Metrology.Decimal.Significant,
  Metrology.Proofs.RoundingError, Metrology.Proofs.ShortestDecimal
Main exports: leadingExponent_eq_log, IsNearestMultiple, isNearestMultiple_divRound,
  logFloor_eq_or
-/
import Mathlib.Data.Int.Log
import Mathlib.Data.Rat.Floor
import Metrology.Decimal.Significant
import Metrology.Proofs.RoundingError
import Metrology.Proofs.ShortestDecimal

namespace Metrology

/-! ### The leading place -/

variable {num den : Nat}

/-- A positive quotient is below the next power of ten. -/
theorem lt_leadingExponent (posNum : 0 < num) (pos : 0 < den) :
    num * 10 ^ (-(leadingExponent num den + 1)).toNat <
      den * 10 ^ (leadingExponent num den + 1).toNat := by
  unfold leadingExponent
  split
  · next large =>
      have up : ((digitCount (num / den) : Int) - 1 + 1).toNat = digitCount (num / den) := by omega
      have down : (-((digitCount (num / den) : Int) - 1 + 1)).toNat = 0 := by omega
      rw [up, down, Nat.pow_zero, Nat.mul_one, Nat.mul_comm]
      exact (Nat.div_lt_iff_lt_mul pos).1 (lt_ten_pow_digitCount _)
  · next small =>
      have digits := digitCount_pos ((den + num - 1) / num - 1)
      have up : (-(digitCount ((den + num - 1) / num - 1) : Int) + 1).toNat = 0 := by omega
      have down : (-(-(digitCount ((den + num - 1) / num - 1) : Int) + 1)).toNat =
          digitCount ((den + num - 1) / num - 1) - 1 := by omega
      rw [up, down, Nat.pow_zero, Nat.mul_one]
      have two : 2 ≤ (den + num - 1) / num := (Nat.le_div_iff_mul_le posNum).2 (by omega)
      have leading := ten_pow_le_of_pos (n := (den + num - 1) / num - 1) (by omega)
      have ceiling : num * ((den + num - 1) / num) ≤ den + num - 1 := Nat.mul_div_le _ _
      have next : num * (10 ^ (digitCount ((den + num - 1) / num - 1) - 1) + 1) ≤
          num * ((den + num - 1) / num) := Nat.mul_le_mul_left _ (by omega)
      rw [Nat.mul_add, Nat.mul_one] at next
      omega

theorem zpow_eq_div (e : ℤ) : (10 : ℚ) ^ e = 10 ^ e.toNat / 10 ^ (-e).toNat := by
  rcases le_total 0 e with up | down
  · have zero : (-e).toNat = 0 := by omega
    rw [zero, pow_zero, div_one, ← zpow_natCast, Int.toNat_of_nonneg up]
  · have zero : e.toNat = 0 := by omega
    rw [zero, pow_zero, one_div, ← zpow_natCast, Int.toNat_of_nonneg (by omega), zpow_neg, inv_inv]

/-- The leading place of a quotient is the floor of its base-ten logarithm. -/
theorem leadingExponent_eq_log (posNum : 0 < num) (pos : 0 < den) :
    leadingExponent num den = Int.log 10 ((num : ℚ) / den) := by
  have posQ : (0 : ℚ) < num / den := by positivity
  have denQ : (0 : ℚ) < den := by positivity
  apply le_antisymm
  · rw [← Int.zpow_le_iff_le_log (by norm_num) posQ]
    have bound : ((den * 10 ^ (leadingExponent num den).toNat : Nat) : ℚ) ≤
        (num * 10 ^ (-leadingExponent num den).toNat : Nat) :=
      Nat.cast_le.2 (leadingExponent_le posNum pos)
    push_cast at bound
    rw [Nat.cast_ofNat, zpow_eq_div, div_le_div_iff₀ (by positivity) denQ]
    linarith
  · rw [← Int.lt_add_one_iff, ← Int.lt_zpow_iff_log_lt (by norm_num) posQ]
    have bound : ((num * 10 ^ (-(leadingExponent num den + 1)).toNat : Nat) : ℚ) <
        (den * 10 ^ (leadingExponent num den + 1).toNat : Nat) :=
      Nat.cast_lt.2 (lt_leadingExponent posNum pos)
    push_cast at bound
    rw [Nat.cast_ofNat, zpow_eq_div, div_lt_div_iff₀ denQ (by positivity)]
    linarith

/-! ### Nearest multiples -/

/-- `r` is the multiple of `10 ^ grid` that is nearest to `q`, the even one if two are. -/
def IsNearestMultiple (q r : ℚ) (grid : ℤ) : Prop :=
  ∃ m : ℤ, r = m * 10 ^ grid ∧ 2 * |q - r| ≤ 10 ^ grid ∧ (2 * |q - r| = 10 ^ grid → Even m)

/-- Where a tie is left, the even neighbour is taken. -/
theorem even_of_half (num : Nat) (pos : 0 < den)
    (half : 2 * num + den = 2 * (divRound .even num den * den) ∨
      2 * num = 2 * (divRound .even num den * den) + den) : Even (divRound .even num den) := by
  have split := Nat.div_add_mod num den
  have next : (num / den + 1) * den = num / den * den + den := Nat.succ_mul _ _
  have rest := Nat.mod_lt num pos
  rw [Nat.mul_comm den] at split
  revert half
  simp only [divRound]
  split_ifs with below above even
  · omega
  · rw [next]
    omega
  · exact fun _ => Nat.even_iff.2 even
  · exact fun _ => Nat.even_iff.2 (by omega)

/-- A quotient that is rounded half to even becomes the nearest integer. -/
theorem isNearest_divRound (num : Nat) (pos : 0 < den) :
    2 * |(num : ℚ) / den - divRound .even num den| ≤ 1 ∧
      (2 * |(num : ℚ) / den - divRound .even num den| = 1 → Even (divRound .even num den)) := by
  have denQ : (0 : ℚ) < den := by positivity
  generalize rounded : divRound .even num den = m
  have near := divRound_near .even num pos
  have even := even_of_half num pos
  rw [rounded] at near even
  have apart : (num : ℚ) / den - m = (num - m * den) / den := by field_simp
  have above : (2 * (m * den) : ℚ) ≤ 2 * num + den := by exact_mod_cast near.1
  have below : (2 * num : ℚ) ≤ 2 * (m * den) + den := by exact_mod_cast near.2
  rw [apart, abs_div, abs_of_pos denQ, ← mul_div_assoc, div_le_one denQ, div_eq_one_iff_eq denQ.ne']
  constructor
  · rw [← abs_two, ← abs_mul, abs_le]
    constructor <;> linarith
  · intro half
    rw [← abs_two, ← abs_mul, abs_eq denQ.le] at half
    refine even (half.symm.imp (fun h => ?_) fun h => ?_)
    · have exact : (2 * num + den : ℚ) = 2 * (m * den) := by linarith
      exact_mod_cast exact
    · have exact : (2 * num : ℚ) = 2 * (m * den) + den := by linarith
      exact_mod_cast exact

/-- The step of a grid can be taken out. -/
theorem isNearestMultiple_mul {q : ℚ} {m : ℤ} (grid : ℤ) (near : 2 * |q - m| ≤ 1)
    (even : 2 * |q - m| = 1 → Even m) :
    IsNearestMultiple (q * 10 ^ grid) (m * 10 ^ grid) grid := by
  have step : (0 : ℚ) < 10 ^ grid := zpow_pos (by norm_num) grid
  have apart : 2 * |q * 10 ^ grid - m * 10 ^ grid| = 2 * |q - m| * 10 ^ grid := by
    rw [← sub_mul, abs_mul, abs_of_pos step, mul_assoc]
  refine ⟨m, rfl, ?_, fun tie => even ?_⟩
  · rw [apart]
    exact mul_le_of_le_one_left step.le near
  · rw [apart] at tie
    exact mul_right_cancel₀ step.ne' (by rw [tie, one_mul])

theorem IsNearestMultiple.signFactor_mul {q r : ℚ} {grid : ℤ} (h : IsNearestMultiple q r grid)
    (negative : Bool) :
    IsNearestMultiple (Binary.signFactor negative * q) (Binary.signFactor negative * r) grid := by
  obtain ⟨m, rfl, near, even⟩ := h
  cases negative with
  | false => simpa [Binary.signFactor] using ⟨m, rfl, near, even⟩
  | true =>
      refine ⟨-m, by simp [Binary.signFactor], ?_, ?_⟩
      all_goals
        simp only [Binary.signFactor, if_true, neg_one_mul]
        rw [neg_sub_neg, abs_sub_comm]
      · exact near
      · exact fun tie => (even tie).neg

/-- A multiple that is nearer than half a step is the nearest one. -/
theorem IsNearestMultiple.eq_of_lt {q r : ℚ} {grid m : ℤ} (h : IsNearestMultiple q r grid)
    (near : 2 * |q - m * 10 ^ grid| < 10 ^ grid) : r = m * 10 ^ grid := by
  obtain ⟨n, rfl, half, -⟩ := h
  have step : (0 : ℚ) < 10 ^ grid := zpow_pos (by norm_num) grid
  have apart : |((n - m : ℤ) : ℚ)| * 10 ^ grid < 1 * 10 ^ grid := by
    calc |((n - m : ℤ) : ℚ)| * 10 ^ grid = |(n : ℚ) * 10 ^ grid - m * 10 ^ grid| := by
          rw [← sub_mul, abs_mul, abs_of_pos step, Int.cast_sub]
      _ ≤ |q - n * 10 ^ grid| + |q - m * 10 ^ grid| := by
          rw [abs_sub_comm q (n * 10 ^ grid)]
          exact abs_sub_le _ _ _
      _ < 1 * 10 ^ grid := by linarith
  have less : |n - m| < 1 := by exact_mod_cast lt_of_mul_lt_mul_right apart step.le
  rw [Int.sub_eq_zero.1 (Int.abs_lt_one_iff.1 less)]

/-- On a grid ten times as fine, what was nearest stays so if it is near enough. -/
theorem IsNearestMultiple.finer_iff {q r : ℚ} {grid : ℤ} (h : IsNearestMultiple q r (grid + 1)) :
    IsNearestMultiple q r grid ↔ 2 * |q - r| ≤ 10 ^ grid := by
  constructor
  · rintro ⟨-, -, near, -⟩
    exact near
  · intro near
    obtain ⟨m, rfl, -, -⟩ := h
    refine ⟨10 * m, ?_, near, fun _ => (by decide : Even (10 : ℤ)).mul_right m⟩
    rw [zpow_add_one₀ (by norm_num)]
    push_cast
    ring

/-- So little below a power of ten that at most eleven digits do not show the difference, a number
    is rounded to that power, and nearer than half a step of the grid ten times as fine. -/
theorem IsNearestMultiple.near_of_close {q r : ℚ} {k : ℤ} {digits : Nat}
    (h : IsNearestMultiple q r (k - digits + 1)) (positive : 1 ≤ digits) (few : digits ≤ 11)
    (below : q ≤ 10 ^ k) (close : (10 ^ k - q) * 10 ^ 12 < 10 ^ k) :
    2 * |q - r| ≤ 10 ^ (k - digits) := by
  have ten : (10 : ℚ) ≠ 0 := by norm_num
  have step : (0 : ℚ) < 10 ^ (k - digits) := zpow_pos (by norm_num) _
  have whole : (10 : ℚ) ^ k = 10 ^ digits * 10 ^ (k - digits) := by
    rw [← zpow_natCast, ← zpow_add₀ ten]
    congr 1
    omega
  have gap : |q - 10 ^ k| = 10 ^ k - q := by
    rw [abs_sub_comm, abs_of_nonneg (by linarith)]
  have steps : (10 : ℚ) ^ k ≤ 10 ^ 11 * 10 ^ (k - digits) := by
    rw [whole]
    exact mul_le_mul_of_nonneg_right (pow_le_pow_right₀ (by norm_num) few) step.le
  have near : 2 * |q - 10 ^ k| ≤ 10 ^ (k - digits) := by
    rw [gap]
    linarith
  have power : ((10 ^ (digits - 1) : ℤ) : ℚ) * 10 ^ (k - digits + 1) = 10 ^ k := by
    push_cast
    rw [← zpow_natCast, ← zpow_add₀ ten]
    congr 1
    omega
  have coarser : (10 : ℚ) ^ (k - digits + 1) = 10 ^ (k - digits) * 10 := zpow_add_one₀ ten _
  have same : r = 10 ^ k := by
    rw [← power]
    exact h.eq_of_lt (by rw [power]; linarith)
  rwa [same]

/-! ### The magnitude of a value on a grid -/

namespace Binary

variable {w : Width} {units : Nat}

theorem gridNum_div_gridDen (units : Nat) (grid : ℤ) :
    (gridNum units grid : ℚ) / gridDen w grid * 10 ^ grid = units / w.one := by
  have one := one_pos_rat w
  rw [gridNum, gridDen, zpow_eq_div]
  push_cast
  field_simp

theorem gridNum_neg (units places : Nat) :
    gridNum units (-(places : ℤ)) = units * 10 ^ places := by
  rw [gridNum, Int.neg_neg, Int.toNat_natCast]

theorem gridDen_neg (w : Width) (places : Nat) : gridDen w (-(places : ℤ)) = w.one := by
  rw [gridDen, Int.toNat_of_nonpos (by omega), Nat.pow_zero, Nat.mul_one]

/-- The magnitude of a value rounded half to even on a grid is the nearest multiple. -/
theorem isNearestMultiple_divRound (w : Width) (units : Nat) (grid : ℤ) :
    IsNearestMultiple (units / w.one)
      (divRound .even (gridNum units grid) (gridDen w grid) * 10 ^ grid) grid := by
  obtain ⟨near, even⟩ := isNearest_divRound (gridNum units grid) (gridDen_pos w grid)
  rw [← gridNum_div_gridDen]
  have nearest := isNearestMultiple_mul grid (m := (divRound .even (gridNum units grid)
    (gridDen w grid) : Nat)) (by simpa using near) (by simpa using even)
  simpa using nearest

end Binary

/-! ### The logarithm in double precision -/

/-- The logarithm comes out as the leading place, or as the next one, just below its power of
    ten. -/
theorem logFloor_eq_or {units : Nat} (pos : 0 < units) :
    logFloor units = Int.log 10 ((units : ℚ) / Width.double.one) ∨
      logFloor units = Int.log 10 ((units : ℚ) / Width.double.one) + 1 ∧
        (10 ^ logFloor units - (units : ℚ) / Width.double.one) * 10 ^ 12 < 10 ^ logFloor units := by
  rw [← leadingExponent_eq_log pos Width.double.one_pos]
  simp only [logFloor]
  split
  · next reached =>
      right
      refine ⟨rfl, ?_⟩
      simp only [Bool.and_eq_true, isJustBelow, decide_eq_true_eq] at reached
      obtain ⟨⟨below, close⟩, -⟩ := reached
      generalize leadingExponent units Width.double.one + 1 = k at below close
      have one := Binary.one_pos_rat .double
      have gap :
          (((Width.double.one * 10 ^ k.toNat - units * 10 ^ (-k).toNat) * 10 ^ 12 : Nat) : ℚ) <
            (Width.double.one * 10 ^ k.toNat : Nat) := Nat.cast_lt.2 close
      rw [Nat.cast_mul, Nat.cast_sub below.le] at gap
      push_cast at gap
      have shift : (0 : ℚ) < 10 ^ (-k).toNat := by positivity
      have whole : (10 : ℚ) ^ k * (Width.double.one * 10 ^ (-k).toNat) =
          Width.double.one * 10 ^ k.toNat := by
        rw [zpow_eq_div]
        field_simp
      have value : (units : ℚ) / Width.double.one * (Width.double.one * 10 ^ (-k).toNat) =
          units * 10 ^ (-k).toNat := by field_simp
      refine lt_of_mul_lt_mul_right ?_ (mul_pos one shift).le
      rw [mul_right_comm, sub_mul, whole, value]
      exact gap
  · exact .inl rfl

end Metrology
