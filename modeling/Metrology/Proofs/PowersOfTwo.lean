/-
Module: Metrology.Proofs.PowersOfTwo
Layer: Proofs
Purpose: Arithmetic on powers of two, subnormal ones included. An operation whose exact result is a
  value of the format gives that value. Products and quotients of powers of two are powers of two,
  and where they are none of the format they overflow to infinity or vanish: they are never rounded
  to something else. What is finite and not zero comes of operands that are so; so a power by
  repeated multiplication or by squaring is exact if it is finite and not zero in the end.
Imports: Mathlib.Tactic.Ring, Metrology.Proofs.NearestUnits, Metrology.Proofs.ShortSignificand
Main exports: Binary.Denotes.unique, Binary.Denotes.mul_eq, Binary.Denotes.div_eq,
  Binary.IsNonzero, Binary.Denotes.two_zpow_mul, Binary.Denotes.two_zpow_div,
  Binary.Denotes.multiplyRepeatedly, Binary.Denotes.squareMultiply
-/
import Mathlib.Tactic.Ring
import Metrology.Proofs.NearestUnits
import Metrology.Proofs.ShortSignificand

namespace Metrology

namespace Binary

variable {w : Width} {x y z acc base : Binary w} {p q : ℚ} {d e : ℤ}

/-! ### Exact results -/

theorem one_ne_zero_units (w : Width) : (w.one : ℚ) ≠ 0 :=
  Nat.cast_ne_zero.2 (Nat.ne_of_gt w.one_pos)

/-- Two values that denote one number are the same. -/
theorem Denotes.unique (hx : x.Denotes q) (hy : y.Denotes q) : x = y := by
  obtain ⟨m, holdsM, rfl, unitsM⟩ := hx
  obtain ⟨n, holdsN, rfl, unitsN⟩ := hy
  obtain rfl : m = n := by
    rw [unitsM] at unitsN
    exact_mod_cast unitsN
  rfl

/-- A product that is a value of the format is not rounded. -/
theorem Denotes.mul_eq (hx : x.Denotes p) (hy : y.Denotes q) (hz : z.Denotes (p * q)) :
    x * y = z := by
  obtain ⟨m, holdsM, rfl, unitsM⟩ := hx
  obtain ⟨n, holdsN, rfl, unitsN⟩ := hy
  obtain ⟨k, holdsK, rfl, unitsK⟩ := hz
  have product : m * n = k * w.one := by
    have rational : (m * n : ℚ) = k * w.one := by
      rw [← unitsM, ← unitsN, ← unitsK]
      ac_rfl
    exact_mod_cast rational
  change mul (.finite false m holdsM) (.finite false n holdsN) = _
  simp only [mul, Bool.xor_false, product]
  exact ofRatio_of_holds false holdsK w.one_pos

/-- A quotient that is a value of the format is not rounded. -/
theorem Denotes.div_eq (hx : x.Denotes p) (hy : y.Denotes q) (hz : z.Denotes (p / q))
    (nonzero : q ≠ 0) : x / y = z := by
  obtain ⟨m, holdsM, rfl, unitsM⟩ := hx
  obtain ⟨n, holdsN, rfl, unitsN⟩ := hy
  obtain ⟨k, holdsK, rfl, unitsK⟩ := hz
  have positive : 0 < n := by
    refine Nat.pos_of_ne_zero ?_
    rintro rfl
    rw [Nat.cast_zero] at unitsN
    exact mul_ne_zero nonzero (one_ne_zero_units w) unitsN
  have quotient : m * w.one = k * n := by
    have rational : (m * w.one : ℚ) = k * n := by
      rw [← unitsM, ← unitsN, ← unitsK]
      calc p * w.one * w.one = p / q * q * w.one * w.one := by rw [div_mul_cancel₀ p nonzero]
        _ = p / q * w.one * (q * w.one) := by ac_rfl
    exact_mod_cast rational
  change div (.finite false m holdsM) (.finite false n holdsN) = _
  simp only [div, Nat.ne_of_gt positive, if_false, Bool.xor_false, quotient]
  exact ofRatio_of_holds false holdsK positive

theorem denotes_one : (one : Binary w).Denotes 1 := ⟨w.one, w.holds_one, rfl, by simp⟩

/-! ### Finite and not zero -/

/-- Neither zero nor infinite, and a number at all. -/
def IsNonzero (x : Binary w) : Prop := ∃ negative units holds,
  x = .finite negative units holds ∧ units ≠ 0

theorem isNonzero_of_isPositiveFinite (h : x.isPositiveFinite = true) : x.IsNonzero := by
  cases x with
  | nan | infinite => cases h
  | finite s m holds =>
      simp only [isPositiveFinite, Bool.and_eq_true, bne_iff_ne] at h
      exact ⟨s, m, holds, rfl, h.2⟩

theorem not_isNonzero_zero (s : Bool) : ¬ (zero s : Binary w).IsNonzero := by
  rintro ⟨negative, units, holds, same, nonzero⟩
  cases same
  exact nonzero rfl

theorem num_ne_zero_of_isNonzero {s : Bool} {num den : Nat}
    (h : (ofRatio s num den : Binary w).IsNonzero) : num ≠ 0 := by
  rintro rfl
  rw [ofRatio, Width.roundUnits_zero, ofRounded, dif_pos w.holds_zero] at h
  exact not_isNonzero_zero s h

/-- The factors of a product that is finite and not zero are so too. -/
theorem of_isNonzero_mul (h : (x * y).IsNonzero) : x.IsNonzero ∧ y.IsNonzero := by
  obtain ⟨negative, units, holds, product, nonzero⟩ := h
  obtain ⟨finiteX, finiteY⟩ := of_isFinite_mul (a := x) (b := y) (by rw [product]; rfl)
  cases x with
  | nan | infinite => cases finiteX
  | finite s m holdsM =>
      cases y with
      | nan | infinite => cases finiteY
      | finite t n holdsN =>
          have num : m * n ≠ 0 := num_ne_zero_of_isNonzero ⟨_, _, _, product, nonzero⟩
          rw [Nat.mul_ne_zero_iff] at num
          exact ⟨⟨s, m, holdsM, rfl, num.1⟩, ⟨t, n, holdsN, rfl, num.2⟩⟩

/-- The divisor of a quotient that is finite and not zero is so too. -/
theorem isNonzero_of_one_div (h : (one / x).IsNonzero) : x.IsNonzero := by
  cases x with
  | nan =>
      obtain ⟨negative, units, holds, quotient, -⟩ := h
      cases quotient
  | infinite s => exact absurd h (not_isNonzero_zero (false ^^ s))
  | finite s m holdsM =>
      refine ⟨s, m, holdsM, rfl, ?_⟩
      rintro rfl
      obtain ⟨negative, units, holds, quotient, -⟩ := h
      change div one (.finite s 0 holdsM) = _ at quotient
      simp [div, one, Nat.ne_of_gt w.one_pos] at quotient

theorem of_isNonzero_multiplyRepeatedly {count : Nat}
    (h : (multiplyRepeatedly acc base count).IsNonzero) : acc.IsNonzero := by
  induction count generalizing acc with
  | zero => exact h
  | succ count ih => exact (of_isNonzero_mul (ih h)).1

/-! ### Powers of two -/

/-- The powers of two of a format are those with a single bit among its units. -/
theorem denotes_two_zpow_iff :
    x.Denotes (2 ^ e) ↔ ∃ (i : Nat) (holds : w.Holds (2 ^ i)), x = .finite false (2 ^ i) holds ∧
      (i : ℤ) = e + w.scale := by
  have whole : x.Denotes (2 ^ e) ↔ x.Denotes ((1 : Nat) * 2 ^ e) := by
    simp
  rw [whole, denotes_scaled_iff]
  constructor
  · rintro ⟨units, holds, rfl, same⟩
    rw [Nat.one_mul] at same
    have exponent : 0 ≤ e + w.scale := by
      by_contra negative
      have noWhole : (e + w.scale).toNat = 0 := by omega
      obtain ⟨k, fraction⟩ : ∃ k, (-(e + w.scale)).toNat = k + 1 :=
        ⟨(-(e + w.scale)).toNat - 1, by omega⟩
      rw [noWhole, fraction, Nat.pow_zero, Nat.pow_succ, ← Nat.mul_assoc] at same
      omega
    have noFraction : (-(e + w.scale)).toNat = 0 := by omega
    rw [noFraction, Nat.pow_zero, Nat.mul_one] at same
    subst same
    exact ⟨_, holds, rfl, by omega⟩
  · rintro ⟨i, holds, rfl, exponent⟩
    refine ⟨2 ^ i, holds, rfl, ?_⟩
    rw [Nat.one_mul, ← exponent, Int.toNat_natCast]
    simp

/-- A ratio of powers of two is one, or else it overflows or vanishes. -/
theorem exists_of_isNonzero_ofRatio {a b : Nat}
    (h : (ofRatio false (2 ^ a) (2 ^ b) : Binary w).IsNonzero) :
    ∃ i holds, (ofRatio false (2 ^ a) (2 ^ b) : Binary w) = .finite false (2 ^ i) holds ∧
      i + b = a := by
  rcases Nat.lt_or_ge a b with below | above
  · have half : 2 * 2 ^ a ≤ 2 ^ b := by
      rw [Nat.mul_comm, ← Nat.pow_succ]
      exact Nat.pow_le_pow_right Nat.two_pos below
    have vanishes : w.roundUnits (2 ^ a) (2 ^ b) = 0 :=
      Width.roundUnits_eq_zero (Nat.two_pow_pos b) half
    rw [ofRatio, vanishes, ofRounded, dif_pos w.holds_zero] at h
    exact absurd h (not_isNonzero_zero false)
  · obtain ⟨i, rfl⟩ := Nat.exists_eq_add_of_le' above
    have exact : (ofRatio false (2 ^ (i + b)) (2 ^ b) : Binary w) = ofRounded false (2 ^ i) := by
      rw [Nat.pow_add]
      exact ofRatio_of_short false (Width.short_two_pow i) (Nat.two_pow_pos b)
    rw [exact, ofRounded] at h ⊢
    split at h
    · next holds => exact ⟨i, holds, dif_pos holds, rfl⟩
    · obtain ⟨negative, units, holds, infinite, -⟩ := h
      cases infinite

/-- The product of powers of two is one, unless it overflows or vanishes. -/
theorem Denotes.two_zpow_mul (hx : x.Denotes (2 ^ d)) (hy : y.Denotes (2 ^ e))
    (nonzero : (x * y).IsNonzero) : (x * y).Denotes (2 ^ (d + e)) := by
  obtain ⟨i, holdsI, rfl, exponentI⟩ := denotes_two_zpow_iff.1 hx
  obtain ⟨j, holdsJ, rfl, exponentJ⟩ := denotes_two_zpow_iff.1 hy
  have product : (.finite false (2 ^ i) holdsI * .finite false (2 ^ j) holdsJ : Binary w) =
      ofRatio false (2 ^ (i + j)) (2 ^ w.scale) := by
    rw [Nat.pow_add]
    rfl
  rw [product] at nonzero ⊢
  obtain ⟨k, holdsK, exact, exponentK⟩ := exists_of_isNonzero_ofRatio nonzero
  exact denotes_two_zpow_iff.2 ⟨k, holdsK, exact, by omega⟩

/-- The quotient of powers of two is one, unless it overflows or vanishes. -/
theorem Denotes.two_zpow_div (hx : x.Denotes (2 ^ d)) (hy : y.Denotes (2 ^ e))
    (nonzero : (x / y).IsNonzero) : (x / y).Denotes (2 ^ (d - e)) := by
  obtain ⟨i, holdsI, rfl, exponentI⟩ := denotes_two_zpow_iff.1 hx
  obtain ⟨j, holdsJ, rfl, exponentJ⟩ := denotes_two_zpow_iff.1 hy
  have quotient : (.finite false (2 ^ i) holdsI / .finite false (2 ^ j) holdsJ : Binary w) =
      ofRatio false (2 ^ (i + w.scale)) (2 ^ j) := by
    change div _ _ = _
    simp only [div, Nat.ne_of_gt (Nat.two_pow_pos j), if_false, Bool.xor_false, Nat.pow_add,
      Width.one]
  rw [quotient] at nonzero ⊢
  obtain ⟨k, holdsK, exact, exponentK⟩ := exists_of_isNonzero_ofRatio nonzero
  exact denotes_two_zpow_iff.2 ⟨k, holdsK, exact, by omega⟩

/-! ### Powers of powers of two -/

/-- Repeated multiplication by a power of two is exact. -/
theorem Denotes.multiplyRepeatedly {count : Nat} (start : acc.Denotes (2 ^ d))
    (hbase : base.Denotes (2 ^ e)) (nonzero : (acc.multiplyRepeatedly base count).IsNonzero) :
    (acc.multiplyRepeatedly base count).Denotes (2 ^ (d + e * count)) := by
  induction count generalizing acc d with
  | zero => simpa [Binary.multiplyRepeatedly] using start
  | succ count ih =>
      have product := start.two_zpow_mul hbase (of_isNonzero_multiplyRepeatedly nonzero)
      have exponent : d + e * (count + 1 : Nat) = d + e + e * count := by
        push_cast
        ring
      rw [exponent]
      exact ih product nonzero

/-- A binary digit of the exponent takes the base in, or leaves it out. -/
theorem Denotes.taken {count : Nat} (start : acc.Denotes (2 ^ d)) (hbase : base.Denotes (2 ^ e))
    (nonzero : (if count % 2 = 1 then acc * base else acc).IsNonzero) :
    (if count % 2 = 1 then acc * base else acc).Denotes (2 ^ (d + e * (count % 2 : Nat))) := by
  split at nonzero
  · next odd => simpa [odd] using start.two_zpow_mul hbase nonzero
  · next even =>
      have zero : count % 2 = 0 := by omega
      simpa [zero] using start

/-- Square and multiply is exact on powers of two. -/
theorem Denotes.squareMultiply {count : Nat} (start : acc.Denotes (2 ^ d))
    (hbase : base.Denotes (2 ^ e)) (nonzero : (acc.squareMultiply base count).IsNonzero) :
    (acc.squareMultiply base count).Denotes (2 ^ (d + e * count)) := by
  induction count using Nat.strongRecOn generalizing acc base d e with
  | ind count ih =>
      rw [Binary.squareMultiply] at nonzero ⊢
      split at nonzero
      · next last =>
          have digit : ((count % 2 : Nat) : ℤ) = count := by omega
          rw [if_pos last, ← digit]
          exact start.taken hbase nonzero
      · next more =>
          obtain ⟨left, right⟩ := of_squareMultiply of_isNonzero_mul nonzero
          have exponent :
              d + e * count = d + e * (count % 2 : Nat) + (e + e) * (count / 2 : Nat) := by
            conv_lhs => rw [← Nat.div_add_mod count 2]
            push_cast
            ring
          rw [if_neg more, exponent]
          exact ih _ (by omega) (start.taken hbase left)
            (hbase.two_zpow_mul hbase (right more)) nonzero

end Binary

end Metrology
