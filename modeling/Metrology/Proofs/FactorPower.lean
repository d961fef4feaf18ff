/-
Module: Metrology.Proofs.FactorPower
Layer: Proofs
Purpose: The powers of a scale factor. Up to a limit they are multiplied up one factor at a time, so
  each is the factor times the one before it; past the limit they are squared, and then this is so
  behind a power of two. A negative power is the reciprocal of the positive one. Powers of a power
  of two are exact either way, unless they overflow or vanish.
Imports: Metrology.MeasureUnit, Metrology.Proofs.PowersOfTwo
Main exports: Binary.multiplyRepeatedly_succ, Binary.squareMultiply_bit,
  MeasureUnit.factorPower_neg, MeasureUnit.factorPower_succ, MeasureUnit.factorPower_two_pow_succ,
  MeasureUnit.denotes_factorPower
-/
import Metrology.MeasureUnit
import Metrology.Proofs.PowersOfTwo

namespace Metrology

namespace Binary

variable {w : Width}

theorem multiplyRepeatedly_succ (acc base : Binary w) (count : Nat) :
    multiplyRepeatedly acc base (count + 1) = multiplyRepeatedly acc base count * base := by
  induction count generalizing acc with
  | zero => rfl
  | succ count ih => exact ih (acc * base)

theorem squareMultiply_two_mul (acc base : Binary w) {count : Nat} (more : count ≠ 0) :
    squareMultiply acc base (2 * count) = squareMultiply acc (base * base) count := by
  have even : 2 * count % 2 = 0 := by omega
  have half : 2 * count / 2 = count := by omega
  rw [squareMultiply.eq_def acc base]
  simp only [even, half, more, Nat.zero_ne_one, if_false]

theorem squareMultiply_two_mul_add_one (acc base : Binary w) {count : Nat} (more : count ≠ 0) :
    squareMultiply acc base (2 * count + 1) = squareMultiply (acc * base) (base * base) count := by
  have odd : (2 * count + 1) % 2 = 1 := by omega
  have half : (2 * count + 1) / 2 = count := by omega
  rw [squareMultiply.eq_def acc base]
  simp only [odd, half, more, if_true, if_false]

/-- An exponent with a single binary digit takes one square in. -/
theorem squareMultiply_bit (acc base : Binary w) (k : Nat) :
    squareMultiply acc base (2 ^ k) = acc * squareMultiply one base (2 ^ k) := by
  induction k generalizing base with
  | zero => simp [squareMultiply, one_mul]
  | succ k ih =>
      have more : 2 ^ k ≠ 0 := Nat.ne_of_gt (Nat.two_pow_pos k)
      rw [Nat.pow_succ, Nat.mul_comm, squareMultiply_two_mul _ _ more,
        squareMultiply_two_mul _ _ more]
      exact ih (base * base)

end Binary

namespace MeasureUnit

variable {x : Double} {n : Int} {e : ℤ}

theorem factorPower_natCast (x : Double) (n : Nat) :
    factorPower x n = if n ≤ steppedPowers then Binary.multiplyRepeatedly .one x n
      else Binary.squareMultiply .one x n := by
  have positive : ¬ ((n : Int) < 0) := by omega
  simp only [factorPower, positive, if_false, Int.natAbs_natCast]

theorem factorPower_zero (x : Double) : factorPower x 0 = .one := rfl

theorem factorPower_one (x : Double) : factorPower x 1 = x := Binary.one_mul x

/-- A negative power is the reciprocal of the positive one. -/
theorem factorPower_neg (x : Double) (natural : 0 ≤ n) :
    factorPower x (-n) = .one / factorPower x n := by
  rcases Int.le_iff_lt_or_eq.1 natural with positive | rfl
  · have negative : -n < 0 := by omega
    have upward : ¬ n < 0 := by omega
    simp only [factorPower, negative, upward, if_true, if_false, Int.natAbs_neg]
  · exact (Binary.div_one .one).symm

/-- Up to the limit a power is the factor times the power before it. -/
theorem factorPower_succ (x : Double) {n : Nat} (small : n < steppedPowers) :
    factorPower x (n + 1 : Nat) = x * factorPower x n := by
  rw [factorPower_natCast, factorPower_natCast, if_pos (Nat.succ_le_of_lt small),
    if_pos (Nat.le_of_lt small), Binary.multiplyRepeatedly_succ, Binary.mul_comm]

/-- Behind a power of two past the limit this is so again: all squares are the same. -/
theorem factorPower_two_pow_succ (x : Double) {k : Nat} (large : steppedPowers < 2 ^ k) :
    factorPower x (2 ^ k + 1 : Nat) = x * factorPower x (2 ^ k : Nat) := by
  obtain ⟨j, rfl⟩ : ∃ j, k = j + 1 := by
    cases k with
    | zero => exact absurd large (by decide)
    | succ j => exact ⟨j, rfl⟩
  have more : 2 ^ j ≠ 0 := Nat.ne_of_gt (Nat.two_pow_pos j)
  rw [factorPower_natCast, factorPower_natCast, if_neg (by omega), if_neg (by omega), Nat.pow_succ,
    Nat.mul_comm]
  calc Binary.squareMultiply .one x (2 * 2 ^ j + 1)
      = Binary.squareMultiply x (x * x) (2 ^ j) := by
        rw [Binary.squareMultiply_two_mul_add_one _ _ more, Binary.one_mul]
    _ = x * Binary.squareMultiply .one (x * x) (2 ^ j) := Binary.squareMultiply_bit ..
    _ = x * Binary.squareMultiply .one x (2 * 2 ^ j) := by
        rw [Binary.squareMultiply_two_mul _ _ more]

/-- A power of a power of two is exact, unless it overflows or vanishes. -/
theorem denotes_factorPower (hx : x.Denotes (2 ^ e)) (nonzero : (factorPower x n).IsNonzero) :
    (factorPower x n).Denotes (2 ^ (e * n)) := by
  have one : (Binary.one : Double).Denotes (2 ^ (0 : ℤ)) := by
    rw [zpow_zero]
    exact Binary.denotes_one
  have natural : ∀ m : Nat, (factorPower x m).IsNonzero →
      (factorPower x m).Denotes (2 ^ (e * m)) := by
    intro m nonzero
    rw [← Int.zero_add (e * m)]
    rw [factorPower_natCast] at nonzero ⊢
    split at nonzero
    · next stepped => rw [if_pos stepped]; exact one.multiplyRepeatedly hx nonzero
    · next squared => rw [if_neg squared]; exact one.squareMultiply hx nonzero
  obtain ⟨m, rfl | rfl⟩ := n.eq_nat_or_neg
  · exact natural m nonzero
  · rw [factorPower_neg x (Int.natCast_nonneg m)] at nonzero ⊢
    have magnitude := natural m (Binary.isNonzero_of_one_div nonzero)
    rw [Int.mul_neg, ← Int.zero_sub]
    exact one.two_zpow_div magnitude nonzero

end MeasureUnit

end Metrology
