/-
Module: Metrology.Proofs.ShortSignificand
Layer: Proofs
Purpose: Arithmetic that rounds nothing. A number is short if it is a significand of up to
  `precision` bits before a run of zero bits. Rounding leaves short numbers alone, so products of
  whole numbers that come to short ones are exact, until they overflow to infinity, where they stay,
  and a sum of short numbers is rounded just once. Powers of two are short, and so square and
  multiply gives exact powers of two: up to the largest one, and down to its reciprocal only, since
  a negative power is the reciprocal of the positive one. A whole number times such a power is exact
  if it denotes a value.
Imports: Mathlib.Algebra.Order.Field.Rat, Metrology.Proofs.BinaryRatio
Main exports: Width.short_iff, Width.short_roundUnits, Binary.ofNat_mul_ofNat,
  Binary.ofNat_add_ofNat, Binary.ofNat_mul_add_digit, Binary.squareMultiply_two_pow,
  Binary.power_two_eq_finite, Binary.power_two_eq_infinite, Binary.power_two_eq_zero,
  Binary.Denotes, Binary.denotes_scaled_iff, Binary.ofNat_mul_power_two_eq
-/
import Mathlib.Algebra.Order.Field.Rat
import Metrology.Proofs.BinaryRatio

namespace Metrology

namespace Width

variable {w : Width} {n : Nat}

/-- From here on there are no finite values, counted in units. -/
def limit (w : Width) : Nat := 2 ^ (w.precision + w.maxShift)

/-- Powers of two are finite below this exponent. -/
def topExponent : Width → Nat
  | single => 128
  | double => 1024

theorem limit_eq (w : Width) : w.limit = 2 ^ w.topExponent * w.one := by
  have exponents : w.precision + w.maxShift = w.topExponent + w.scale := by cases w <;> rfl
  rw [limit, exponents, Nat.pow_add, one]

/-- The reciprocals of all finite powers of two are powers of two. -/
theorem topExponent_le_scale (w : Width) : w.topExponent ≤ w.scale := by cases w <;> decide

theorem mul_one_lt_limit_iff : n * w.one < w.limit ↔ n < 2 ^ w.topExponent := by
  rw [limit_eq]
  exact Nat.mul_lt_mul_right w.one_pos

theorem holds_iff : w.Holds n ↔ n < w.limit ∧ w.Short n := Iff.rfl

/-- A short number is a significand before zero bits. -/
theorem short_iff : w.Short n ↔ ∃ m k, m < 2 ^ w.precision ∧ n = m * 2 ^ k := by
  constructor
  · intro short
    obtain ⟨m, split⟩ := Nat.dvd_of_mod_eq_zero short
    have below : 2 ^ w.shiftOf n * m < 2 ^ w.shiftOf n * 2 ^ w.precision := by
      rw [← split, Nat.mul_comm]
      exact w.lt_two_pow_shiftOf n
    exact ⟨m, _, Nat.lt_of_mul_lt_mul_left below, by rw [Nat.mul_comm]; exact split⟩
  · rintro ⟨m, k, bits, rfl⟩
    exact short_mul_two_pow bits k

theorem short_of_lt (h : n < 2 ^ w.precision) : w.Short n :=
  short_iff.2 ⟨n, 0, h, by rw [Nat.pow_zero, Nat.mul_one]⟩

theorem Short.mul_two_pow (h : w.Short n) (k : Nat) : w.Short (n * 2 ^ k) := by
  obtain ⟨m, j, bits, rfl⟩ := short_iff.1 h
  exact short_iff.2 ⟨m, j + k, bits, by rw [Nat.mul_assoc, Nat.pow_add]⟩

theorem Short.mul_one (h : w.Short n) : w.Short (n * w.one) := h.mul_two_pow w.scale

theorem short_two_pow (k : Nat) : w.Short (2 ^ k) := by
  have bits : 1 < 2 ^ w.precision := Nat.one_lt_two_pow (Nat.ne_of_gt w.precision_pos)
  simpa using (short_of_lt bits).mul_two_pow k

/-- A rounded number of units has up to `precision` significant bits. -/
theorem short_roundUnits (num den : Nat) : w.Short (w.roundUnits num den) := by
  obtain ⟨m, bound, -, rounded⟩ := @roundUnits_eq w num den
  rw [rounded]
  rcases Nat.lt_or_eq_of_le bound with less | rfl
  · exact short_mul_two_pow less _
  · rw [← Nat.pow_add]
    exact short_two_pow _

/-- Leading bits of a short number are short. -/
theorem Short.div_two_pow (h : w.Short n) (k : Nat) : w.Short (n / 2 ^ k) := by
  obtain ⟨m, j, bits, rfl⟩ := short_iff.1 h
  rcases Nat.le_total k j with le | le
  · obtain ⟨i, rfl⟩ := Nat.exists_eq_add_of_le le
    refine short_iff.2 ⟨m, i, bits, Nat.div_eq_of_eq_mul_left (Nat.two_pow_pos k) ?_⟩
    rw [Nat.add_comm, Nat.pow_add, Nat.mul_assoc]
  · obtain ⟨i, rfl⟩ := Nat.exists_eq_add_of_le le
    have quotient : m * 2 ^ j / 2 ^ (j + i) = m / 2 ^ i := by
      rw [Nat.pow_add, Nat.mul_comm m]
      exact Nat.mul_div_mul_left m (2 ^ i) (Nat.two_pow_pos j)
    rw [quotient]
    exact short_of_lt (Nat.lt_of_le_of_lt (Nat.div_le_self m _) bits)

end Width

namespace Binary

variable {w : Width} {m n : Nat}

/-! ### Whole numbers -/

/-- Rounding leaves short numbers alone; what is left is the limit of the format. -/
theorem ofRatio_of_short {den : Nat} (negative : Bool) (h : w.Short n) (pos : 0 < den) :
    (ofRatio negative (n * den) den : Binary w) = ofRounded negative n := by
  rw [ofRatio, Width.roundUnits_of_short h pos]

theorem ofNat_of_short (h : w.Short n) : (ofNat n : Binary w) = ofRounded false (n * w.one) := by
  have exact := @ofRatio_of_short w _ 1 false h.mul_one Nat.one_pos
  rwa [Nat.mul_one] at exact

theorem ofNat_of_lt (h : w.Short n) (below : n * w.one < w.limit) :
    (ofNat n : Binary w) = .finite false (n * w.one) (Width.holds_iff.2 ⟨below, h.mul_one⟩) := by
  rw [ofNat_of_short h, ofRounded, dif_pos]

/-- Rounding does not lead below the limit. -/
theorem ofNat_of_le (above : w.limit ≤ n * w.one) : (ofNat n : Binary w) = .infinite false := by
  have rounded : w.limit ≤ w.roundUnits (n * w.one) 1 :=
    Width.le_roundUnits_of_short (Width.short_two_pow _) (by rwa [Nat.div_one])
  rw [ofNat, ofRatio, ofRounded, dif_neg fun holds => Nat.not_lt.2 rounded holds.1]

theorem ofNat_zero : (ofNat 0 : Binary w) = zero false := by
  rw [ofNat_eq_finite (Nat.zero_le _)]
  simp [zero]

theorem ofNat_one : (ofNat 1 : Binary w) = one := by
  rw [ofNat_eq_finite Nat.one_le_two_pow]
  simp [one]

/-- A whole number times another one, of which each but the first may be infinite. -/
theorem ofNat_mul_ofNat (hm : w.Short m) (hn : w.Short n) (product : w.Short (m * n))
    (pos : n ≠ 0) (start : m ≠ 0 ∨ n * w.one < w.limit) :
    (ofNat m * ofNat n : Binary w) = ofNat (m * n) := by
  change mul (ofNat m) (ofNat n) = _
  have posOne := w.one_pos
  rcases Nat.lt_or_ge (m * w.one) w.limit with belowM | aboveM
  · rcases Nat.lt_or_ge (n * w.one) w.limit with belowN | aboveN
    · have split : m * w.one * (n * w.one) = m * n * w.one * w.one := by ac_rfl
      rw [ofNat_of_lt hm belowM, ofNat_of_lt hn belowN, ofNat_of_short product]
      simp only [mul, Bool.xor_false, split]
      exact ofRatio_of_short false product.mul_one posOne
    · have posM : m ≠ 0 := start.resolve_right (Nat.not_lt.2 aboveN)
      have above : w.limit ≤ m * n * w.one := by
        refine Nat.le_trans aboveN (Nat.mul_le_mul_right _ ?_)
        exact Nat.le_mul_of_pos_left n (Nat.pos_of_ne_zero posM)
      have units : m * w.one ≠ 0 := Nat.mul_ne_zero posM (Nat.ne_of_gt posOne)
      rw [ofNat_of_lt hm belowM, ofNat_of_le aboveN, ofNat_of_le above]
      simp only [mul, units, if_false, Bool.xor_false]
  · have above : w.limit ≤ m * n * w.one := by
      refine Nat.le_trans aboveM (Nat.mul_le_mul_right _ ?_)
      exact Nat.le_mul_of_pos_right m (Nat.pos_of_ne_zero pos)
    rw [ofNat_of_le aboveM, ofNat_of_le above]
    rcases Nat.lt_or_ge (n * w.one) w.limit with belowN | aboveN
    · have units : n * w.one ≠ 0 := Nat.mul_ne_zero pos (Nat.ne_of_gt posOne)
      rw [ofNat_of_lt hn belowN]
      simp only [mul, units, if_false, Bool.xor_false]
    · rw [ofNat_of_le aboveN]
      rfl

/-- The sum of a whole number, which may be infinite, and one that is not: it is rounded once. -/
theorem ofNat_add_ofNat (hm : w.Short m) (hn : w.Short n) (below : n * w.one < w.limit) :
    (ofNat m + ofNat n : Binary w) = ofNat (m + n) := by
  change add (ofNat m) (ofNat n) = _
  rcases Nat.lt_or_ge (m * w.one) w.limit with belowM | aboveM
  · rw [ofNat_of_lt hm belowM, ofNat_of_lt hn below]
    have total : ((m * w.one : Nat) : Int) + (n * w.one : Nat) = ((m + n) * w.one : Nat) := by
      rw [Nat.add_mul]
      rfl
    simp only [add, Bool.and_false, Bool.false_eq_true, if_false, total, ofSum, Int.natAbs_natCast]
    split
    · next none =>
        have empty := (Nat.mul_eq_zero.1 (Int.natCast_eq_zero.1 none)).resolve_right
          (Nat.ne_of_gt w.one_pos)
        rw [empty, ofNat_zero]
    · have positive : ¬((((m + n) * w.one : Nat) : Int) < 0) := by omega
      simp only [positive, decide_false, ofNat]
  · have above : w.limit ≤ (m + n) * w.one :=
      Nat.le_trans aboveM (Nat.mul_le_mul_right _ (Nat.le_add_right m n))
    rw [ofNat_of_le aboveM, ofNat_of_le above, ofNat_of_lt hn below]
    rfl

theorem two_pow_lt_limit {k : Nat} (h : k < w.topExponent) : 2 ^ k * w.one < w.limit :=
  Width.mul_one_lt_limit_iff.2 (Nat.pow_lt_pow_right Nat.one_lt_two h)

theorem limit_le_two_pow {k : Nat} (h : w.topExponent ≤ k) : w.limit ≤ 2 ^ k * w.one := by
  rw [Width.limit_eq]
  exact Nat.mul_le_mul_right _ (Nat.pow_le_pow_right Nat.two_pos h)

/-- A further digit rounds once, and not at all where the number has overflowed. -/
theorem ofNat_mul_add_digit {k d : Nat} (bits : k < w.precision) (digit : d < 2 ^ k)
    (leading : w.Short n) :
    (ofNat n * ofNat (2 ^ k) + ofNat d : Binary w) = ofNat (n * 2 ^ k + d) := by
  have shifted := leading.mul_two_pow k
  have finite : 2 ^ k * w.one < w.limit :=
    two_pow_lt_limit (Nat.lt_of_lt_of_le bits (by cases w <;> decide))
  have digitFinite : d * w.one < w.limit :=
    Nat.lt_of_le_of_lt (Nat.mul_le_mul_right _ (Nat.le_of_lt digit)) finite
  have digitShort : w.Short d :=
    Width.short_of_lt (Nat.lt_trans digit (Nat.pow_lt_pow_right Nat.one_lt_two bits))
  rw [ofNat_mul_ofNat leading (Width.short_two_pow k) shifted (Nat.ne_of_gt (Nat.two_pow_pos k))
    (.inr finite)]
  exact ofNat_add_ofNat shifted digitShort digitFinite

/-! ### Powers of two -/

theorem ofNat_two_pow_mul (i j : Nat) :
    (ofNat (2 ^ i) * ofNat (2 ^ j) : Binary w) = ofNat (2 ^ (i + j)) := by
  have pos (k : Nat) : 2 ^ k ≠ 0 := Nat.ne_of_gt (Nat.two_pow_pos k)
  have product := Width.short_two_pow (w := w) (i + j)
  rw [Nat.pow_add] at product ⊢
  exact ofNat_mul_ofNat (Width.short_two_pow i) (Width.short_two_pow j) product (pos j)
    (.inl (pos i))

/-- Square and multiply is exact on powers of two. -/
theorem squareMultiply_two_pow (i j count : Nat) :
    squareMultiply (ofNat (2 ^ i)) (ofNat (2 ^ j)) count =
      (ofNat (2 ^ (i + j * count)) : Binary w) := by
  induction count using Nat.strongRecOn generalizing i j with
  | ind count ih =>
      rw [squareMultiply]
      have halves := Nat.div_add_mod count 2
      have base := @ofNat_two_pow_mul w j j
      have acc : (if count % 2 = 1 then ofNat (2 ^ i) * ofNat (2 ^ j) else ofNat (2 ^ i)) =
          (ofNat (2 ^ (i + j * (count % 2))) : Binary w) := by
        split
        · next odd => rw [ofNat_two_pow_mul, odd, Nat.mul_one]
        · next even =>
            have zero : count % 2 = 0 := by omega
            rw [zero, Nat.mul_zero, Nat.add_zero]
      simp only [acc, base]
      split
      · next last =>
          rw [last, Nat.mul_zero, Nat.zero_add] at halves
          rw [halves]
      · next more =>
          rw [ih (count / 2) (by omega)]
          have exponent : i + j * (count % 2) + (j + j) * (count / 2) = i + j * count := by
            calc i + j * (count % 2) + (j + j) * (count / 2)
                = i + j * (2 * (count / 2) + count % 2) := by
                  rw [Nat.mul_add, ← Nat.two_mul, Nat.mul_assoc, Nat.mul_left_comm 2]
                  omega
              _ = i + j * count := by rw [halves]
          rw [exponent]

/-- The positive power comes first, and for a negative one its reciprocal. -/
theorem power_two (p : Int) :
    (ofNat 2 : Binary w).power p =
      if p < 0 then one / ofNat (2 ^ p.natAbs) else ofNat (2 ^ p.natAbs) := by
  have magnitude := @squareMultiply_two_pow w 0 1 p.natAbs
  rw [Nat.pow_zero, ofNat_one, Nat.pow_one, Nat.one_mul, Nat.zero_add] at magnitude
  simp only [power, magnitude]

/-- Powers of two are exact between the largest one and its reciprocal. -/
theorem power_two_eq_finite {p : Int} (h : p.natAbs < w.topExponent) :
    ∃ holds, (ofNat 2 : Binary w).power p = .finite false (2 ^ (p + w.scale).toNat) holds := by
  have enough := w.topExponent_le_scale
  have holds : w.Holds (2 ^ (p + w.scale).toNat) := by
    refine ⟨?_, Width.short_two_pow _⟩
    have exponent : (p + w.scale).toNat < w.topExponent + w.scale := by omega
    have below := Nat.pow_lt_pow_right Nat.one_lt_two exponent
    rwa [Nat.pow_add, ← Width.one, ← Width.limit_eq] at below
  refine ⟨holds, ?_⟩
  rw [power_two, ofNat_of_lt (Width.short_two_pow _) (two_pow_lt_limit h)]
  split
  · next negative =>
      have pos : 0 < 2 ^ p.natAbs * w.one := Nat.mul_pos (Nat.two_pow_pos _) w.one_pos
      have exponents : w.scale = (p + w.scale).toNat + p.natAbs := by omega
      have split : w.one * w.one = 2 ^ (p + w.scale).toNat * (2 ^ p.natAbs * w.one) := by
        rw [← Nat.mul_assoc, ← Nat.pow_add, ← exponents, Width.one]
      change div one (.finite false _ _) = _
      simp only [div, one, Nat.ne_of_gt pos, if_false, Bool.xor_false, split]
      rw [ofRatio_of_short false (Width.short_two_pow _) pos, ofRounded, dif_pos holds]
  · next positive =>
      have exponents : p.natAbs + w.scale = (p + w.scale).toNat := by omega
      have units : 2 ^ p.natAbs * w.one = 2 ^ (p + w.scale).toNat := by
        rw [Width.one, ← Nat.pow_add, exponents]
      simp only [units]

theorem power_two_eq_infinite {p : Int} (h : w.topExponent ≤ p) :
    (ofNat 2 : Binary w).power p = .infinite false := by
  have above : w.limit ≤ 2 ^ p.natAbs * w.one := limit_le_two_pow (by omega)
  rw [power_two, if_neg (by omega), ofNat_of_le above]

/-- Below that the positive power overflows, and its reciprocal vanishes. -/
theorem power_two_eq_zero {p : Int} (h : p ≤ -w.topExponent) :
    (ofNat 2 : Binary w).power p = zero false := by
  have above : w.limit ≤ 2 ^ p.natAbs * w.one := limit_le_two_pow (by omega)
  have negative : p < 0 := by
    have : 0 < w.topExponent := by cases w <;> decide
    omega
  rw [power_two, if_pos negative, ofNat_of_le above]
  rfl

/-! ### Whole numbers scaled by powers of two -/

/-- The value is finite, without a sign, and equal to the rational. -/
def Denotes (x : Binary w) (q : ℚ) : Prop :=
  ∃ units holds, x = .finite false units holds ∧ q * w.one = units

theorem Denotes.isFinite {x : Binary w} {q : ℚ} (h : x.Denotes q) : x.isFinite = true := by
  obtain ⟨units, holds, rfl, -⟩ := h
  rfl

/-- Two scaled whole numbers are equal if they are where both powers are whole. -/
theorem mul_two_zpow_eq_iff {k : Int} :
    (m : ℚ) * 2 ^ k = n ↔ m * 2 ^ k.toNat = n * 2 ^ (-k).toNat := by
  have two : (2 : ℚ) ≠ 0 := two_ne_zero
  have split : (2 : ℚ) ^ k = 2 ^ k.toNat / 2 ^ (-k).toNat := by
    rw [← zpow_natCast, ← zpow_natCast, ← zpow_sub₀ two]
    congr 1
    omega
  rw [split, mul_div_assoc', div_eq_iff (pow_ne_zero _ two)]
  exact_mod_cast Iff.rfl

/-- The units of a scaled whole number. -/
theorem denotes_scaled_iff {x : Binary w} {p : Int} :
    x.Denotes (m * 2 ^ p) ↔ ∃ units holds, x = .finite false units holds ∧
      m * 2 ^ (p + w.scale).toNat = units * 2 ^ (-(p + w.scale)).toNat := by
  have scaled : (m : ℚ) * 2 ^ p * w.one = m * 2 ^ (p + w.scale) := by
    rw [zpow_add₀ two_ne_zero, zpow_natCast, mul_assoc, Width.one]
    norm_cast
  simp only [Denotes, scaled, mul_two_zpow_eq_iff]

theorem denotes_of_short {p : Int} (value : m * 2 ^ p.toNat = n * 2 ^ (-p).toNat)
    (short : w.Short n) (below : n < 2 ^ w.topExponent) :
    (ofNat n : Binary w).Denotes (m * 2 ^ p) := by
  refine ⟨_, _, ofNat_of_lt short (Width.mul_one_lt_limit_iff.2 below), ?_⟩
  rw [mul_two_zpow_eq_iff.2 value, Nat.cast_mul]

theorem denotes_ofNat {p : Int} (value : m * 2 ^ p.toNat = n * 2 ^ (-p).toNat)
    (small : n ≤ 2 ^ w.precision) : (ofNat n : Binary w).Denotes (m * 2 ^ p) := by
  have below : 2 ^ w.precision < 2 ^ w.topExponent :=
    Nat.pow_lt_pow_right Nat.one_lt_two (by cases w <;> decide)
  refine denotes_of_short value ?_ (Nat.lt_of_le_of_lt small below)
  rcases Nat.lt_or_eq_of_le small with less | rfl
  · exact Width.short_of_lt less
  · exact Width.short_two_pow _

section Scaled

variable {x : Binary w} {p : Int}

/-- A whole number that a power of two scales to a finite value is short. -/
theorem short_of_denotes (exact : x.Denotes (m * 2 ^ p)) : w.Short m := by
  obtain ⟨units, holds, -, same⟩ := denotes_scaled_iff.1 exact
  have scaled := (Width.holds_iff.1 holds).2.mul_two_pow (-(p + w.scale)).toNat
  rw [← same] at scaled
  have unscaled := scaled.div_two_pow (p + w.scale).toNat
  rwa [Nat.mul_div_cancel m (Nat.two_pow_pos _)] at unscaled

theorem eq_zero_iff_of_denotes (exact : x.Denotes (m * 2 ^ p)) : x = zero false ↔ m = 0 := by
  obtain ⟨units, holds, rfl, same⟩ := denotes_scaled_iff.1 exact
  have scaled : m = 0 ↔ units = 0 := by
    constructor
    · rintro rfl
      rw [Nat.zero_mul] at same
      exact (Nat.mul_eq_zero.1 same.symm).resolve_right (Nat.ne_of_gt (Nat.two_pow_pos _))
    · rintro rfl
      rw [Nat.zero_mul] at same
      exact (Nat.mul_eq_zero.1 same).resolve_right (Nat.ne_of_gt (Nat.two_pow_pos _))
  simp [zero, scaled]

theorem power_lt_of_denotes (exact : x.Denotes (m * 2 ^ p)) (pos : m ≠ 0) : p < w.topExponent := by
  obtain ⟨units, holds, -, same⟩ := denotes_scaled_iff.1 exact
  by_contra above
  have noFraction : (-(p + w.scale)).toNat = 0 := by omega
  rw [noFraction, Nat.pow_zero, Nat.mul_one] at same
  have exponents : w.topExponent + w.scale ≤ (p + w.scale).toNat := by omega
  have limit : w.limit ≤ units := by
    rw [Width.limit_eq, Width.one, ← Nat.pow_add, ← same]
    exact Nat.le_trans (Nat.pow_le_pow_right Nat.two_pos exponents)
      (Nat.le_mul_of_pos_left _ (Nat.pos_of_ne_zero pos))
  exact Nat.not_lt.2 limit holds.1

/-- The product is exact where both factors are values of the format. -/
theorem ofNat_mul_power_two_eq (exact : x.Denotes (m * 2 ^ p)) (below : m < 2 ^ w.topExponent)
    (range : p.natAbs < w.topExponent) : ofNat m * (ofNat 2).power p = x := by
  have short := short_of_denotes exact
  obtain ⟨units, holds, rfl, same⟩ := denotes_scaled_iff.1 exact
  obtain ⟨powerHolds, power⟩ := @power_two_eq_finite w p range
  have enough := w.topExponent_le_scale
  have noFraction : (-(p + w.scale)).toNat = 0 := by omega
  rw [noFraction, Nat.pow_zero, Nat.mul_one] at same
  have split : m * w.one * 2 ^ (p + w.scale).toNat = units * w.one := by
    rw [← same]
    ac_rfl
  rw [power, ofNat_of_lt short (Width.mul_one_lt_limit_iff.2 below)]
  change mul (.finite false _ _) (.finite false _ _) = _
  simp only [mul, Bool.xor_false, split]
  exact ofRatio_of_holds false holds w.one_pos

/-- Below the reciprocals of the finite powers the product vanishes. -/
theorem ofNat_mul_power_two_eq_zero (short : w.Short m) (below : m < 2 ^ w.topExponent)
    (low : p ≤ -w.topExponent) : (ofNat m * (ofNat 2).power p : Binary w) = zero false := by
  rw [power_two_eq_zero low, ofNat_of_lt short (Width.mul_one_lt_limit_iff.2 below)]
  change mul (.finite false _ _) (zero false) = _
  simp only [mul, zero, Bool.xor_false, Nat.mul_zero]
  have exact := @ofRatio_of_holds w 0 w.one false w.holds_zero w.one_pos
  rwa [Nat.zero_mul] at exact

/-- The product is no value where one of its factors is none, even if the other one is zero. -/
theorem of_isFinite_ofNat_mul_power_two
    (finite : (ofNat m * (ofNat 2).power p : Binary w).isFinite = true) :
    m < 2 ^ w.topExponent ∧ p < w.topExponent := by
  obtain ⟨finiteM, finitePower⟩ := of_isFinite_mul finite
  constructor
  · by_contra above
    rw [ofNat_of_le (Nat.not_lt.1 (Width.mul_one_lt_limit_iff.not.2 above))] at finiteM
    cases finiteM
  · by_contra above
    rw [power_two_eq_infinite (Int.not_lt.1 above)] at finitePower
    cases finitePower

end Scaled

end Binary

end Metrology
