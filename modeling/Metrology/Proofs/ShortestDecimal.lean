/-
Module: Metrology.Proofs.ShortestDecimal
Layer: Proofs
Purpose: The shortest decimal of a binary value reads back as that value. Reading is one rounding of
  the exact decimal, so it only depends on the number that the decimal denotes. The grid of
  seventeen significant digits is finer than the steps of the format around the value, and one of
  its two points next to the value is nearer than half a step on its side; below a power of two,
  where the steps are halved, it is the point above. So the search for a grid with a point that
  reads back ends there at the latest.
Imports: Metrology.Decimal.Shortest, Metrology.Proofs.NearestUnits,
  Metrology.Proofs.ShortSignificand, Metrology.Proofs.WholeText
Main exports: Decimal.toBinary_eq_ofRatio, Decimal.toBinary_congr, Decimal.toBinary_normalize,
  leadingExponent_le, Width.roundUnits_neighbour, Binary.toBinary_shortest
-/
import Metrology.Decimal.Shortest
import Metrology.Proofs.NearestUnits
import Metrology.Proofs.ShortSignificand
import Metrology.Proofs.WholeText

namespace Metrology

variable {w : Width} {n : Nat}

/-! ### The leading place -/

theorem lt_ten_pow_digitCount (n : Nat) : n < 10 ^ digitCount n := by
  induction n using digitCount.induct with
  | case1 n small =>
      rw [digitCount, if_pos small]
      exact small
  | case2 n large ih =>
      rw [digitCount, if_neg large, Nat.pow_succ]
      omega

theorem ten_pow_le_of_pos (pos : 0 < n) : 10 ^ (digitCount n - 1) ≤ n := by
  induction n using digitCount.induct with
  | case1 n small =>
      rw [digitCount, if_pos small]
      exact pos
  | case2 n large ih =>
      have shorter := ih (by omega)
      obtain ⟨k, digits⟩ := Nat.exists_eq_succ_of_ne_zero (Nat.ne_of_gt (digitCount_pos (n / 10)))
      rw [digits, Nat.succ_sub_one] at shorter
      rw [digitCount, if_neg large, digits, Nat.add_sub_cancel, Nat.pow_succ]
      omega

/-- A positive quotient is not below the power of ten at its leading digit. -/
theorem leadingExponent_le {num den : Nat} (posNum : 0 < num) (pos : 0 < den) :
    den * 10 ^ (leadingExponent num den).toNat ≤ num * 10 ^ (-leadingExponent num den).toNat := by
  unfold leadingExponent
  split
  · next large =>
      have digits := digitCount_pos (num / den)
      have up : ((digitCount (num / den) : Int) - 1).toNat = digitCount (num / den) - 1 := by omega
      have down : (-((digitCount (num / den) : Int) - 1)).toNat = 0 := by omega
      rw [up, down, Nat.pow_zero, Nat.mul_one, Nat.mul_comm]
      exact (Nat.le_div_iff_mul_le pos).1 (ten_pow_le_of_pos (Nat.div_pos large pos))
  · next small =>
      have up : (-(digitCount ((den + num - 1) / num - 1) : Int)).toNat = 0 := by omega
      have down : (- -(digitCount ((den + num - 1) / num - 1) : Int)).toNat =
          digitCount ((den + num - 1) / num - 1) := by omega
      rw [up, down, Nat.pow_zero, Nat.mul_one]
      have ceiling : den ≤ num * ((den + num - 1) / num) := by
        have split := Nat.div_add_mod (den + num - 1) num
        have rest := Nat.mod_lt (den + num - 1) posNum
        omega
      refine Nat.le_trans ceiling (Nat.mul_le_mul_left _ ?_)
      have digits := lt_ten_pow_digitCount ((den + num - 1) / num - 1)
      omega

/-! ### Reading is one rounding -/

theorem two_pow_le_ten_pow {k m : Nat} (h : k ≤ 3 * m) : 2 ^ k ≤ 10 ^ m := by
  calc 2 ^ k ≤ 2 ^ (3 * m) := Nat.pow_le_pow_right Nat.two_pos h
    _ = (2 ^ 3) ^ m := Nat.pow_mul ..
    _ ≤ 10 ^ m := Nat.pow_le_pow_left (by decide) m

namespace Decimal

variable {d e : Decimal} {negative : Bool}

theorem den_pos (d : Decimal) : 0 < d.den := Nat.pow_pos (by decide)

/-- A decimal with this many places before the point is past every finite value. -/
theorem limit_le_of_magnitude {k : Nat} (nonzero : d.significand ≠ 0) (top : w.topExponent ≤ 3 * k)
    (huge : k < d.magnitude) : w.limit ≤ d.num * w.one / d.den := by
  have digits := digitCount_pos d.significand
  have leading := ten_pow_le_of_pos (Nat.pos_of_ne_zero nonzero)
  have places : k + (-d.exponent).toNat ≤ digitCount d.significand - 1 + d.exponent.toNat := by
    unfold magnitude at huge
    omega
  have large : 10 ^ k * d.den ≤ d.num := by
    calc 10 ^ k * d.den = 10 ^ (k + (-d.exponent).toNat) := (Nat.pow_add ..).symm
      _ ≤ 10 ^ (digitCount d.significand - 1 + d.exponent.toNat) :=
        Nat.pow_le_pow_right (by decide) places
      _ = 10 ^ (digitCount d.significand - 1) * 10 ^ d.exponent.toNat := Nat.pow_add ..
      _ ≤ d.num := Nat.mul_le_mul_right _ leading
  rw [Nat.le_div_iff_mul_le d.den_pos, Width.limit_eq]
  calc 2 ^ w.topExponent * w.one * d.den ≤ 10 ^ k * w.one * d.den :=
        Nat.mul_le_mul_right _ (Nat.mul_le_mul_right _ (two_pow_le_ten_pow top))
    _ = 10 ^ k * d.den * w.one := Nat.mul_right_comm ..
    _ ≤ d.num * w.one := Nat.mul_le_mul_right _ large

/-- A decimal with this many zeros behind the point is less than half a unit. -/
theorem num_lt_of_magnitude {k : Nat} (unit : w.scale + 1 ≤ 3 * k)
    (tiny : d.magnitude < -(k : Int)) : 2 * (d.num * w.one) < d.den := by
  have places : digitCount d.significand + d.exponent.toNat + k ≤ (-d.exponent).toNat := by
    unfold magnitude at tiny
    omega
  have half : 2 * w.one ≤ 10 ^ k := by
    rw [Width.one, ← Nat.pow_succ']
    exact two_pow_le_ten_pow unit
  have small : d.num < 10 ^ (digitCount d.significand + d.exponent.toNat) := by
    rw [num, Nat.pow_add]
    exact Nat.mul_lt_mul_of_pos_right (lt_ten_pow_digitCount _) (Nat.pow_pos (by decide))
  calc 2 * (d.num * w.one) = d.num * (2 * w.one) := Nat.mul_left_comm ..
    _ ≤ d.num * 10 ^ k := Nat.mul_le_mul_left _ half
    _ < 10 ^ (digitCount d.significand + d.exponent.toNat) * 10 ^ k :=
      Nat.mul_lt_mul_of_pos_right small (Nat.pow_pos (by decide))
    _ = 10 ^ (digitCount d.significand + d.exponent.toNat + k) := (Nat.pow_add ..).symm
    _ ≤ d.den := Nat.pow_le_pow_right (by decide) places

/-- Reading rounds the exact decimal once: the bounds that keep the powers small change nothing. -/
theorem toBinary_eq_ofRatio (w : Width) (negative : Bool) (d : Decimal) :
    d.toBinary w negative = .ofRatio negative (d.num * w.one) d.den := by
  unfold toBinary
  split
  · next zero =>
      rw [num, zero, Nat.zero_mul, Nat.zero_mul, Binary.ofRatio, Width.roundUnits_zero,
        Binary.ofRounded, dif_pos w.holds_zero, Binary.zero]
  · next nonzero =>
      split
      · next huge =>
          have rounded : w.limit ≤ w.roundUnits (d.num * w.one) d.den :=
            Width.le_roundUnits_of_short (Width.short_two_pow _)
              (limit_le_of_magnitude nonzero (by cases w <;> decide) huge)
          rw [Binary.ofRatio, Binary.ofRounded, dif_neg fun holds => Nat.not_lt.2 rounded holds.1]
      · split
        · next tiny =>
            have vanishes : 2 * (d.num * w.one) < d.den :=
              num_lt_of_magnitude (by cases w <;> decide) tiny
            rw [Binary.ofRatio, Width.roundUnits_eq_zero d.den_pos (Nat.le_of_lt vanishes),
              Binary.ofRounded,
              dif_pos w.holds_zero, Binary.zero]
        · rfl

/-- Decimals that denote one number are read as one value. -/
theorem toBinary_congr (same : d.num * e.den = e.num * d.den) :
    d.toBinary w negative = e.toBinary w negative := by
  rw [toBinary_eq_ofRatio, toBinary_eq_ofRatio, Binary.ofRatio, Binary.ofRatio]
  congr 1
  refine Width.roundUnits_congr d.den_pos e.den_pos ?_
  rw [Nat.mul_right_comm, same, Nat.mul_right_comm]

/-- Trailing zeros of the significand do not matter. -/
theorem toBinary_normalize (w : Width) (negative : Bool) (d : Decimal) :
    d.normalize.toBinary w negative = d.toBinary w negative := by
  induction d using normalize.induct with
  | case1 d trailing ih =>
      rw [normalize, dif_pos trailing, ih]
      have tens : d.significand / 10 * 10 = d.significand :=
        Nat.div_mul_cancel (Nat.dvd_of_mod_eq_zero trailing.2)
      apply toBinary_congr
      simp only [num, den]
      rcases Int.lt_or_le d.exponent 0 with fraction | whole
      · have noPower : d.exponent.toNat = 0 ∧ (d.exponent + 1).toNat = 0 := by omega
        have places : (-d.exponent).toNat = (-(d.exponent + 1)).toNat + 1 := by omega
        rw [noPower.1, noPower.2, places, Nat.pow_succ', Nat.pow_zero, Nat.mul_one, Nat.mul_one,
          ← Nat.mul_assoc, tens]
      · have noPlaces : (-d.exponent).toNat = 0 ∧ (-(d.exponent + 1)).toNat = 0 := by omega
        have power : (d.exponent + 1).toNat = d.exponent.toNat + 1 := by omega
        rw [noPlaces.1, noPlaces.2, power, Nat.pow_succ', ← Nat.mul_assoc, tens]
  | case2 d done => rw [normalize, dif_neg done]

/-- A decimal names a magnitude of the format if it is rounded to it. -/
theorem readsBack_iff_roundUnits (holds : w.Holds n) :
    d.readsBack w n = true ↔ w.roundUnits (d.num * w.one) d.den = n := by
  rw [readsBack, toBinary_eq_ofRatio, Binary.ofRatio, Binary.ofRounded]
  by_cases held : w.Holds (w.roundUnits (d.num * w.one) d.den)
  · simp [held]
  · have different : w.roundUnits (d.num * w.one) d.den ≠ n := by
      rintro rfl
      exact held holds
    simp [held, different]

theorem toBinary_of_readsBack (holds : w.Holds n) (h : d.readsBack w n = true) :
    d.toBinary w negative = .finite negative n holds := by
  have rounded := (readsBack_iff_roundUnits holds).1 h
  simp only [toBinary_eq_ofRatio, Binary.ofRatio, rounded, Binary.ofRounded, dif_pos holds]

end Decimal

/-! ### The finest grid -/

/-- Steps of a grid that is sixteen digits finer than a number are finer than those of the format,
    as long as the number is within the bits of the precision. -/
theorem Width.mul_lt_of_fine {c m s step t : Nat} (pos : 0 < t)
    (fine : 10 ^ 16 * (c * step) ≤ m * t) (bits : m ≤ 2 ^ w.precision * 2 ^ s) :
    c * step < t * 2 ^ s := by
  have digits : 2 ^ w.precision < 10 ^ 16 := by cases w <;> decide
  refine Nat.lt_of_mul_lt_mul_left (a := 10 ^ 16) ?_
  calc 10 ^ 16 * (c * step) ≤ m * t := fine
    _ ≤ 2 ^ w.precision * 2 ^ s * t := Nat.mul_le_mul_right _ bits
    _ = 2 ^ w.precision * (t * 2 ^ s) := by ac_rfl
    _ < 10 ^ 16 * (t * 2 ^ s) :=
      Nat.mul_lt_mul_of_pos_right digits (Nat.mul_pos pos (Nat.two_pow_pos s))

/-- Twice a power of two is within the bits of the precision. -/
theorem Width.two_mul_two_pow_log2_le (w : Width) (n : Nat) :
    2 * 2 ^ n.log2 ≤ 2 ^ w.precision * 2 ^ w.shiftOf n := by
  rw [← Nat.pow_succ', ← Nat.pow_add]
  refine Nat.pow_le_pow_right Nat.two_pos ?_
  unfold shiftOf
  omega

/-- Of the two multiples of a fine step around a short number, one is rounded to the number. -/
theorem Width.roundUnits_neighbour {step t : Nat} (short : w.Short n) (nonzero : n ≠ 0)
    (pos : 0 < step) (fine : 10 ^ 16 * step ≤ n * t) :
    w.roundUnits (n * t / step * step) t = n ∨ w.roundUnits ((n * t / step + 1) * step) t = n := by
  have posT : 0 < t := by
    refine Nat.pos_of_ne_zero ?_
    rintro rfl
    omega
  have below : n * t / step * step ≤ n * t := Nat.div_mul_le_self _ _
  have above : n * t < n * t / step * step + step := by
    have next := Nat.lt_mul_div_succ (n * t) pos
    rwa [Nat.mul_add, Nat.mul_one, Nat.mul_comm step] at next
  have bottom : 2 ^ n.log2 * t ≤ n * t := Nat.mul_le_mul_right _ (Nat.log2_self_le nonzero)
  rw [show (n * t / step + 1) * step = n * t / step * step + step from Nat.succ_mul ..]
  by_cases near : 2 * (n * t / step * step + step) < 2 * (n * t) + t * 2 ^ w.shiftOf n
  · right
    exact roundUnits_eq_of_near short nonzero (by omega) (by omega) near
  · left
    have once : 10 ^ 16 * (1 * step) ≤ n * t := by rwa [Nat.one_mul]
    have step_lt := mul_lt_of_fine posT once (Nat.le_of_lt (w.lt_two_pow_shiftOf n))
    rw [Nat.one_mul] at step_lt
    refine roundUnits_eq_of_near short nonzero ?_ (by omega) (by omega)
    rcases eq_two_pow_or_add_step_le short nonzero with power | apart
    · -- at a power of two the grid has two points to a step, so the point above would be near
      have top := w.two_mul_two_pow_log2_le n
      rw [← power] at top
      have twice : 10 ^ 16 * (2 * step) ≤ 2 * n * t := by
        rw [Nat.mul_assoc 2 n t]
        omega
      have half := mul_lt_of_fine posT twice top
      omega
    · have room := Nat.mul_le_mul_right t apart
      rw [Nat.add_mul, Nat.mul_comm (2 ^ w.shiftOf n)] at room
      omega

namespace Binary

/-! ### Shortest decimals -/

theorem gridDen_pos (w : Width) (exponent : Int) : 0 < gridDen w exponent :=
  Nat.mul_pos w.one_pos (Nat.pow_pos (by decide))

/-- What the search finds reads back. -/
theorem readsBack_of_onGrid? {tie : Tie} {exponent : Int} {d : Decimal}
    (h : onGrid? w tie n exponent = some d) : d.readsBack w n = true := by
  simp only [onGrid?] at h
  split at h
  · next below above =>
      obtain rfl := Option.some.inj h
      rcases divRound_eq_or tie (gridNum n exponent) (gridDen w exponent) with same | next
      · rwa [same]
      · rwa [next]
  · next below above =>
      obtain rfl := Option.some.inj h
      exact below
  · next below above =>
      obtain rfl := Option.some.inj h
      exact above
  · cases h

/-- A fine grid has a point that reads back. -/
theorem exists_onGrid? {exponent : Int} (tie : Tie) (holds : w.Holds n) (nonzero : n ≠ 0)
    (fine : 10 ^ 16 * gridDen w exponent ≤ gridNum n exponent) :
    ∃ d, onGrid? w tie n exponent = some d := by
  have units : ∀ f : Nat, (⟨f, exponent⟩ : Decimal).num * w.one = f * gridDen w exponent := by
    intro f
    rw [Decimal.num, gridDen, Nat.mul_assoc, Nat.mul_comm w.one]
  have neighbour := Width.roundUnits_neighbour holds.2 nonzero (gridDen_pos w exponent) fine
  have reads :
      (⟨gridNum n exponent / gridDen w exponent, exponent⟩ : Decimal).readsBack w n = true ∨
      (⟨gridNum n exponent / gridDen w exponent + 1, exponent⟩ : Decimal).readsBack w n = true := by
    rw [Decimal.readsBack_iff_roundUnits holds, Decimal.readsBack_iff_roundUnits holds, units,
      units]
    exact neighbour
  simp only [onGrid?]
  rcases reads with below | above
  · rw [below]
    split <;> simp_all
  · rw [above]
    split <;> simp_all

/-- The grid of seventeen digits is fine. -/
theorem fine_grid (pos : 0 < n) :
    10 ^ 16 * gridDen w (leadingExponent n w.one - 16) ≤
      gridNum n (leadingExponent n w.one - 16) := by
  have leading := leadingExponent_le pos w.one_pos
  generalize leadingExponent n w.one = lead at leading ⊢
  have places : (lead - 16).toNat + 16 + (-lead).toNat = lead.toNat + (-(lead - 16)).toNat := by
    omega
  refine Nat.le_of_mul_le_mul_right (c := 10 ^ (-lead).toNat) ?_ (Nat.pow_pos (by decide))
  calc 10 ^ 16 * gridDen w (lead - 16) * 10 ^ (-lead).toNat
      = w.one * (10 ^ (lead - 16).toNat * 10 ^ 16 * 10 ^ (-lead).toNat) := by
        rw [gridDen]
        ac_rfl
    _ = w.one * 10 ^ lead.toNat * 10 ^ (-(lead - 16)).toNat := by
        rw [← Nat.pow_add, ← Nat.pow_add, places, Nat.pow_add, Nat.mul_assoc]
    _ ≤ n * 10 ^ (-lead).toNat * 10 ^ (-(lead - 16)).toNat := Nat.mul_le_mul_right _ leading
    _ = gridNum n (lead - 16) * 10 ^ (-lead).toNat := Nat.mul_right_comm ..

/-- The search ends with a decimal that reads back. -/
theorem toBinary_shortestUnits {negative : Bool} (tie : Tie) (holds : w.Holds n) (nonzero : n ≠ 0) :
    (shortestUnits w tie n).toBinary w negative = .finite negative n holds := by
  obtain ⟨last, finest⟩ := exists_onGrid? tie holds nonzero (fine_grid (Nat.pos_of_ne_zero nonzero))
  have some : ((List.range longestDigits).findSome? fun (k : Nat) =>
      onGrid? w tie n (leadingExponent n w.one - k)).isSome = true := by
    refine List.findSome?_isSome_iff.2 ⟨16, List.mem_range.2 (by decide), ?_⟩
    rw [Nat.cast_ofNat, finest]
    rfl
  obtain ⟨d, found⟩ := Option.isSome_iff_exists.1 some
  obtain ⟨k, -, here⟩ := List.exists_of_findSome?_eq_some found
  simp only [shortestUnits, found, Option.getD_some]
  rw [Decimal.toBinary_normalize]
  exact Decimal.toBinary_of_readsBack holds (readsBack_of_onGrid? here)

/-- The shortest decimal of a finite value reads back as the value, wherever ties go. -/
theorem toBinary_shortest {negative : Bool} (tie : Tie) (holds : w.Holds n) :
    ((finite negative n holds).shortest tie).toBinary w negative = .finite negative n holds := by
  by_cases zero : n = 0
  · subst zero
    simp [shortest, Decimal.toBinary, Binary.zero]
  · rw [shortest, if_neg zero]
    exact toBinary_shortestUnits tie holds zero

end Binary

end Metrology
