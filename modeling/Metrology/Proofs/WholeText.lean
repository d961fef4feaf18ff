/-
Module: Metrology.Proofs.WholeText
Layer: Proofs
Purpose: The text of a whole number. Rounding does not lead below what a format holds, so up to the
  precision a decimal without a fraction reads back as a whole number only if it is that number, the
  odd neighbour of the largest one left aside. So each grid of the shortest decimal has the number
  itself or nothing, the grid of ones has it at the latest, and what is written are the digits of
  the number.
Imports: Mathlib.Tactic.Ring, Metrology.Decimal.Layout, Metrology.Proofs.BinaryRatio
Main exports: Binary.ofNat_eq_ofNat_iff, Decimal.toBinary_eq_ofNat, Decimal.readsBack_iff,
  Binary.onGrid?_eq, Binary.shortestUnits_whole, decimalDigits_mul_ten_pow, Binary.text_ofNat
-/
import Mathlib.Tactic.Ring
import Metrology.Decimal.Layout
import Metrology.Proofs.BinaryRatio

namespace Metrology

/-! ### Whole numbers apart -/

namespace Width

variable {w : Width}

/-- The next even number after the whole numbers of up to `precision` bits is held. -/
theorem holds_mul_one_succ : w.Holds ((2 ^ w.precision + 2) * w.one) := by
  have half : 2 ^ w.precision + 2 = (2 ^ (w.precision - 1) + 1) * 2 := by
    rw [Nat.add_mul, Nat.one_mul, Nat.two_pow_pred_mul_two w.precision_pos]
  rw [half, Nat.mul_assoc, one, ← Nat.pow_succ']
  refine holds_mul_two_pow ?_ w.scale_lt_maxShift
  cases w <;> decide

end Width

namespace Binary

variable {w : Width}

/-- Up to the precision, a whole number has a value of its own; only the odd neighbour of the
    largest one is rounded to it. -/
theorem ofNat_eq_ofNat_iff {m n : Nat} (hn : n ≤ 2 ^ w.precision) (hm : m ≠ 2 ^ w.precision + 1) :
    (ofNat m : Binary w) = ofNat n ↔ m = n := by
  refine ⟨fun same => ?_, fun same => same ▸ rfl⟩
  rw [ofNat_eq_finite hn] at same
  rcases Nat.lt_or_ge (2 ^ w.precision) m with large | small
  · -- rounding keeps `m` above the even neighbour
    have rounded : w.roundUnits (m * w.one) 1 = n * w.one := by
      unfold ofNat ofRatio ofRounded at same
      split at same
      · exact (finite.inj same).2
      · cases same
    have above : (2 ^ w.precision + 2) * w.one ≤ w.roundUnits (m * w.one) 1 := by
      refine Width.le_roundUnits_of_short Width.holds_mul_one_succ.2 ?_
      rw [Nat.div_one]
      exact Nat.mul_le_mul_right _ (by omega)
    rw [rounded] at above
    have order := Nat.le_of_mul_le_mul_right above w.one_pos
    omega
  · rw [ofNat_eq_finite small] at same
    exact Nat.eq_of_mul_eq_mul_right w.one_pos (finite.inj same).2

end Binary

/-! ### Decimals that read back -/

theorem digitCount_pos (n : Nat) : 0 < digitCount n := by
  unfold digitCount
  split <;> omega

theorem digitCount_le {n k : Nat} (pos : 0 < k) (h : n < 10 ^ k) : digitCount n ≤ k := by
  induction n using digitCount.induct generalizing k with
  | case1 n small =>
      rw [digitCount, if_pos small]
      exact pos
  | case2 n large ih =>
      obtain ⟨k, rfl⟩ := Nat.exists_eq_succ_of_ne_zero (Nat.ne_of_gt pos)
      rw [digitCount, if_neg large]
      rw [Nat.pow_succ] at h
      have more : 0 < k := by
        rcases Nat.eq_zero_or_pos k with rfl | more
        · omega
        · exact more
      have shorter := ih more (Nat.div_lt_of_lt_mul (by rwa [Nat.mul_comm]))
      omega

namespace Decimal

variable {w : Width}

/-- A decimal that denotes a whole number is read as it, however it is written. -/
theorem toBinary_eq_ofNat {d : Decimal} {n : Nat} (same : d.num = n * d.den)
    (notTiny : -400 ≤ d.magnitude) (notHuge : d.magnitude ≤ 400) :
    d.toBinary w false = .ofNat n := by
  have denPos : 0 < d.den := Nat.pow_pos (by decide)
  unfold toBinary
  split
  · next zero =>
      rw [num, zero, Nat.zero_mul] at same
      obtain rfl : n = 0 := (Nat.mul_eq_zero.1 same.symm).resolve_right (Nat.ne_of_gt denPos)
      simp [Binary.ofNat_eq_finite (Nat.zero_le _), Binary.zero]
  · rw [if_neg (Int.not_lt.2 notHuge), if_neg (Int.not_lt.2 notTiny), Binary.ofNat, Binary.ofRatio,
      Binary.ofRatio]
    congr 1
    refine Width.roundUnits_congr denPos Nat.one_pos ?_
    rw [same]
    ring

/-- A decimal without a fraction is read as the whole number that it denotes. -/
theorem toBinary_whole {a t : Nat} (short : digitCount a + t ≤ 400) :
    (⟨a, t⟩ : Decimal).toBinary w false = .ofNat (a * 10 ^ t) := by
  apply toBinary_eq_ofNat
  · simp [num, den]
  · simp only [magnitude]
    omega
  · simp only [magnitude]
    omega

/-- Up to the precision, only the number itself reads back, and perhaps the neighbour of the largest
    one. -/
theorem readsBack_iff {n a t : Nat} (hn : n ≤ 2 ^ w.precision) (short : digitCount a + t ≤ 400)
    (apart : a * 10 ^ t ≠ 2 ^ w.precision + 1) :
    readsBack w (n * w.one) ⟨a, t⟩ = true ↔ a * 10 ^ t = n := by
  rw [← Binary.ofNat_eq_ofNat_iff hn apart, Binary.ofNat_eq_finite hn, readsBack,
    toBinary_whole short]
  simp only [Binary.ofNat, Binary.ofRatio, Binary.ofRounded]
  by_cases holds : w.Holds (w.roundUnits (a * 10 ^ t * w.one) 1) <;> simp [holds]

/-- Trailing zeros leave a decimal without a fraction at the same number. -/
theorem normalize_whole {d : Decimal} {n : Nat} (whole : 0 ≤ d.exponent)
    (same : d.significand * 10 ^ d.exponent.toNat = n) :
    0 ≤ d.normalize.exponent ∧
      d.normalize.significand * 10 ^ d.normalize.exponent.toNat = n := by
  induction d using normalize.induct with
  | case1 d trailing ih =>
      rw [normalize, dif_pos trailing]
      have next : (d.exponent + 1).toNat = d.exponent.toNat + 1 := by omega
      have tens : d.significand / 10 * 10 = d.significand :=
        Nat.div_mul_cancel (Nat.dvd_of_mod_eq_zero trailing.2)
      refine ih (by simp only; omega) ?_
      simp only [next, Nat.pow_succ']
      rw [← Nat.mul_assoc, tens, same]
  | case2 d done =>
      rw [normalize, dif_neg done]
      exact ⟨whole, same⟩

end Decimal

namespace Binary

variable {w : Width}

/-! ### Shortest decimals -/

theorem digitCount_le_of_le_precision {a : Nat} (h : a ≤ 2 ^ w.precision + 1) :
    digitCount a ≤ 16 := by
  refine digitCount_le (by decide) (Nat.lt_of_le_of_lt h ?_)
  cases w <;> decide

/-- A power of ten beyond one does not divide the odd neighbour of the largest whole number. -/
theorem mul_ten_pow_ne {t : Nat} (pos : 0 < t) (a : Nat) : a * 10 ^ t ≠ 2 ^ w.precision + 1 := by
  intro same
  have ten : 2 ∣ 10 ^ t := Nat.dvd_trans (show 2 ∣ 10 ^ 1 by decide) (Nat.pow_dvd_pow 10 pos)
  have even : 2 ∣ a * 10 ^ t := Nat.dvd_mul_left_of_dvd ten a
  have power : 2 ^ 1 ∣ 2 ^ w.precision := Nat.pow_dvd_pow 2 w.precision_pos
  omega

/-- A grid of ones, tens, hundreds and so on has a whole number itself, or no decimal that reads
    back. -/
theorem onGrid?_eq {n t : Nat} (tie : Tie) (hn : n ≤ 2 ^ w.precision) (ht : t ≤ 17) :
    onGrid? w tie (n * w.one) t = if 10 ^ t ∣ n then some ⟨n / 10 ^ t, t⟩ else none := by
  have tensPos : 0 < 10 ^ t := Nat.pow_pos (by decide)
  have num : gridNum (n * w.one) t = n * w.one := by simp [gridNum]
  have den : gridDen w t = 10 ^ t * w.one := by simp [gridDen, Nat.mul_comm]
  have quotient : n * w.one / (10 ^ t * w.one) = n / 10 ^ t :=
    Nat.mul_div_mul_right _ _ w.one_pos
  have bound : n / 10 ^ t ≤ n := Nat.div_le_self _ _
  have shortBelow := digitCount_le_of_le_precision (w := w) (a := n / 10 ^ t) (by omega)
  have shortAbove := digitCount_le_of_le_precision (w := w) (a := n / 10 ^ t + 1) (by omega)
  have le : n / 10 ^ t * 10 ^ t ≤ n := Nat.div_mul_le_self _ _
  have below := @Decimal.readsBack_iff w n (n / 10 ^ t) t hn (by omega) (by omega)
  simp only [onGrid?, num, den, quotient]
  by_cases divides : 10 ^ t ∣ n
  · have rounded : divRound tie (n * w.one) (10 ^ t * w.one) = n / 10 ^ t := by
      rw [divRound_mul_mul _ _ _ w.one_pos]
      conv => lhs; arg 2; rw [← Nat.div_mul_cancel divides]
      exact divRound_mul_right _ _ _ tensPos
    rw [if_pos divides, below.2 (Nat.div_mul_cancel divides), rounded]
    cases Decimal.readsBack w (n * w.one) ⟨n / 10 ^ t + 1, t⟩ <;> rfl
  · have tens : 0 < t := by
      rcases Nat.eq_zero_or_pos t with rfl | pos
      · exact absurd (Nat.one_dvd n) divides
      · exact pos
    have above := @Decimal.readsBack_iff w n (n / 10 ^ t + 1) t hn (by omega)
      (mul_ten_pow_ne tens _)
    have belowFails := mt below.1 fun same => divides (same ▸ Nat.dvd_mul_left ..)
    have aboveFails := mt above.1 fun same => divides (same ▸ Nat.dvd_mul_left ..)
    rw [Bool.not_eq_true] at belowFails aboveFails
    rw [if_neg divides, belowFails, aboveFails]

/-- As grids get finer, the number is found on the grid of ones at the latest. -/
theorem findSome?_onGrid? {n lead : Nat} (tie : Tie) (hn : n ≤ 2 ^ w.precision) (few : lead ≤ 17) :
    ∃ a t : Nat, (List.range (lead + 1)).findSome?
      (fun (k : Nat) => onGrid? w tie (n * w.one) (lead - k)) = some ⟨a, t⟩ ∧ a * 10 ^ t = n := by
  have grid : ∀ k ∈ List.range (lead + 1), onGrid? w tie (n * w.one) (lead - k) =
      if 10 ^ (lead - k) ∣ n then some ⟨n / 10 ^ (lead - k), (lead - k : Nat)⟩ else none := by
    intro k mem
    have coarser := List.mem_range.1 mem
    rw [← Int.ofNat_sub (by omega)]
    exact onGrid?_eq tie hn (by omega)
  have last : lead ∈ List.range (lead + 1) := List.mem_range.2 (Nat.lt_succ_self _)
  have ones : ((List.range (lead + 1)).findSome? fun (k : Nat) =>
      onGrid? w tie (n * w.one) (lead - k)).isSome = true := by
    refine List.findSome?_isSome_iff.2 ⟨lead, last, ?_⟩
    rw [grid lead last, Nat.sub_self, if_pos (Nat.one_dvd n)]
    rfl
  obtain ⟨d, found⟩ := Option.isSome_iff_exists.1 ones
  obtain ⟨k, mem, here⟩ := List.exists_of_findSome?_eq_some found
  rw [grid k mem, Option.ite_none_right_eq_some] at here
  exact ⟨_, _, found.trans (congrArg some (Option.some.inj here.2).symm),
    Nat.div_mul_cancel here.1⟩

/-- The shortest decimal of a whole number has no fraction, and denotes the number. -/
theorem shortestUnits_whole {n : Nat} (tie : Tie) (pos : 0 < n) (hn : n ≤ 2 ^ w.precision) :
    0 ≤ (shortestUnits w tie (n * w.one)).exponent ∧
      (shortestUnits w tie (n * w.one)).significand *
        10 ^ (shortestUnits w tie (n * w.one)).exponent.toNat = n := by
  have digits := digitCount_pos n
  have few := digitCount_le_of_le_precision (w := w) (a := n) (by omega)
  have lead : leadingExponent (n * w.one) w.one = (digitCount n - 1 : Nat) := by
    rw [leadingExponent, if_pos (Nat.le_mul_of_pos_left _ pos), Nat.mul_div_cancel _ w.one_pos]
    omega
  have tries : longestDigits = digitCount n - 1 + 1 + (longestDigits - digitCount n) := by
    unfold longestDigits
    omega
  obtain ⟨a, t, found, same⟩ := @findSome?_onGrid? w n (digitCount n - 1) tie hn (by omega)
  simp only [shortestUnits, lead]
  rw [tries, List.range_add, List.findSome?_append, found, Option.some_or, Option.getD_some]
  exact Decimal.normalize_whole (Int.natCast_nonneg t) same

end Binary

/-! ### Digits -/

/-- Trailing zeros are the digits of a power of ten. -/
theorem decimalDigits_mul_ten_pow {a : Nat} (pos : 0 < a) (t : Nat) :
    decimalDigits (a * 10 ^ t) = decimalDigits a ++ List.replicate t '0' := by
  induction t with
  | zero => simp
  | succ t ih =>
      have positive : 0 < a * 10 ^ t := Nat.mul_pos pos (Nat.pow_pos (by decide))
      calc decimalDigits (a * 10 ^ (t + 1)) = Nat.toDigits 10 (10 * (a * 10 ^ t) + 0) := by
            rw [decimalDigits, Nat.pow_succ', Nat.mul_left_comm, Nat.add_zero]
        _ = decimalDigits (a * 10 ^ t) ++ ['0'] :=
            (Nat.toDigits_append_toDigits (by decide) positive (by decide)).symm
        _ = decimalDigits a ++ List.replicate (t + 1) '0' := by
            rw [ih, List.append_assoc, ← List.replicate_succ']

/-- A whole number of up to `precision` bits is written with its digits. -/
theorem Binary.text_ofNat {w : Width} {n : Nat} (hn : n ≤ 2 ^ w.precision) :
    (ofNat n : Binary w).text = String.ofList (decimalDigits n) := by
  rw [ofNat_eq_finite hn, text, Layout.write, Layout.signText, if_neg Bool.false_ne_true,
    List.nil_append]
  congr 1
  rcases Nat.eq_zero_or_pos n with rfl | pos
  · simp [shortest, Layout.decimalText, Layout.positionalText, Layout.plain]
  · obtain ⟨whole, same⟩ := shortestUnits_whole Layout.plain.tie pos hn
    have units : n * w.one ≠ 0 := Nat.ne_of_gt (Nat.mul_pos pos w.one_pos)
    rw [shortest, if_neg units]
    generalize shortestUnits w Layout.plain.tie (n * w.one) = d at whole same
    have leading : 0 < d.significand := by
      refine Nat.pos_of_ne_zero fun zero => ?_
      rw [zero, Nat.zero_mul] at same
      exact Nat.ne_of_lt pos same
    rw [← same, decimalDigits_mul_ten_pow leading]
    simp [Layout.decimalText, Layout.positionalText, Layout.plain, whole]

end Metrology
