/-
Module: Metrology.Proofs.BinaryExact
Layer: Proofs
Purpose: What rounding leaves alone, and what it cannot lead out of. A magnitude that a format holds
  is not moved by rounding, and a short significand is held at every shift; so natural numbers of up
  to `precision` bits become binary values without loss. Every other quotient is rounded to a
  magnitude that the format holds, as long as it is a binade away from the overflow threshold, and
  not below a short number that it is not below itself.
Imports: Metrology.Binary.Value
Main exports: Width.Short, Width.lt_two_pow_shiftOf, Width.roundUnits_of_short,
  Width.short_mul_two_pow, Width.holds_mul_two_pow, Width.holds_roundUnits,
  Width.le_roundUnits_of_short, Binary.toInt?_ofNat, Binary.toInt?_neg,
  Binary.isPositiveFinite_mul_of_near
-/
import Metrology.Binary.Value

namespace Metrology

namespace Width

variable {w : Width}

/-- The number is not moved by rounding: it has up to `precision` significant bits. -/
def Short (w : Width) (n : Nat) : Prop := n % 2 ^ w.shiftOf n = 0

/-- The bits of a number: `precision` of them, and those of the shift. -/
theorem lt_two_pow_shiftOf (w : Width) (n : Nat) : n < 2 ^ w.precision * 2 ^ w.shiftOf n := by
  rw [← Nat.pow_add]
  refine Nat.lt_of_lt_of_le Nat.lt_log2_self (Nat.pow_le_pow_right Nat.two_pos ?_)
  unfold shiftOf
  omega

/-- An exact quotient that is short is not moved by rounding. -/
theorem roundUnits_of_short {n den : Nat} (h : w.Short n) (pos : 0 < den) :
    w.roundUnits (n * den) den = n := by
  obtain ⟨q, split⟩ := Nat.dvd_of_mod_eq_zero h
  have stepPos : 0 < den * 2 ^ w.shiftOf n := Nat.mul_pos pos (Nat.two_pow_pos _)
  have exact : n * den = q * (den * 2 ^ w.shiftOf n) := by
    rw [Nat.mul_comm q, Nat.mul_assoc, ← split, Nat.mul_comm]
  simp only [roundUnits, Nat.mul_div_cancel n pos]
  rw [exact, divRound_mul_right _ _ _ stepPos, Nat.mul_comm, ← split]

/-- A quotient that the format holds is not moved by rounding. -/
theorem roundUnits_of_holds {n den : Nat} (h : w.Holds n) (pos : 0 < den) :
    w.roundUnits (n * den) den = n :=
  roundUnits_of_short h.2 pos

/-- A significand of up to `precision` bits is short at every shift. -/
theorem short_mul_two_pow {m : Nat} (bits : m < 2 ^ w.precision) (k : Nat) :
    w.Short (m * 2 ^ k) := by
  by_cases zero : m = 0
  · simp [Short, zero]
  · have below : m * 2 ^ k < 2 ^ (w.precision + k) := by
      rw [Nat.pow_add]
      exact Nat.mul_lt_mul_of_pos_right bits (Nat.two_pow_pos k)
    have product : m * 2 ^ k ≠ 0 := Nat.mul_ne_zero zero (Nat.ne_of_gt (Nat.two_pow_pos k))
    -- the significand's own bits fit, so the product is shifted by `k` at most
    have length := (Nat.log2_lt product).2 below
    have shift : w.shiftOf (m * 2 ^ k) ≤ k := by
      unfold shiftOf
      omega
    exact Nat.mod_eq_zero_of_dvd (Nat.dvd_trans (Nat.pow_dvd_pow 2 shift) (Nat.dvd_mul_left ..))

/-- A significand of up to `precision` bits is held at every shift of the format. -/
theorem holds_mul_two_pow {m k : Nat} (hm : m < 2 ^ w.precision) (hk : k ≤ w.maxShift) :
    w.Holds (m * 2 ^ k) := by
  refine ⟨?_, short_mul_two_pow hm k⟩
  have below : m * 2 ^ k < 2 ^ (w.precision + k) := by
    rw [Nat.pow_add]
    exact Nat.mul_lt_mul_of_pos_right hm (Nat.two_pow_pos k)
  exact Nat.lt_of_lt_of_le below
    (Nat.pow_le_pow_right Nat.two_pos (Nat.add_le_add_left hk _))

theorem precision_pos (w : Width) : 0 < w.precision := by cases w <;> decide

theorem scale_lt_maxShift (w : Width) : w.scale < w.maxShift := by cases w <;> decide

theorem one_pos (w : Width) : 0 < w.one := Nat.two_pow_pos _

/-- Whole numbers of up to `precision` bits are held, and so is the next one. -/
theorem holds_mul_one {n : Nat} (h : n ≤ 2 ^ w.precision) : w.Holds (n * w.one) := by
  rcases Nat.lt_or_eq_of_le h with less | rfl
  · exact holds_mul_two_pow less (Nat.le_of_lt w.scale_lt_maxShift)
  · rw [one, ← Nat.pow_add]
    exact holds_two_pow (Nat.add_lt_add_left w.scale_lt_maxShift _)

/-! ### Rounded quotients -/

/-- A rounded quotient is a significand of up to `precision` bits, or the next power of two, at the
    shift of the exact one. -/
theorem roundUnits_eq {num den : Nat} :
    ∃ m, m ≤ 2 ^ w.precision ∧ num / den / 2 ^ w.shiftOf (num / den) ≤ m ∧
      w.roundUnits num den = m * 2 ^ w.shiftOf (num / den) := by
  refine ⟨_, ?_, ?_, rfl⟩
  · have bits := w.lt_two_pow_shiftOf (num / den)
    have below : num / (den * 2 ^ w.shiftOf (num / den)) < 2 ^ w.precision := by
      rw [← Nat.div_div_eq_div_mul]
      exact Nat.div_lt_of_lt_mul (by rwa [Nat.mul_comm])
    rcases divRound_eq_or .even num (den * 2 ^ w.shiftOf (num / den)) with same | next
    · rw [same]
      exact Nat.le_of_lt below
    · rw [next]
      exact below
  · rw [Nat.div_div_eq_div_mul]
    rcases divRound_eq_or .even num (den * 2 ^ w.shiftOf (num / den)) with same | next
    · exact Nat.le_of_eq same.symm
    · rw [next]
      exact Nat.le_succ _

/-- A quotient one binade below the overflow threshold is rounded to what the format holds. -/
theorem holds_roundUnits {num den : Nat}
    (h : num / den < 2 ^ (w.precision + w.maxShift - 1)) : w.Holds (w.roundUnits num den) := by
  obtain ⟨m, bound, _, rounded⟩ := @roundUnits_eq w num den
  have precision := w.precision_pos
  have maxShift : 0 < w.maxShift := Nat.zero_lt_of_lt w.scale_lt_maxShift
  have shift : w.shiftOf (num / den) < w.maxShift := by
    by_cases zero : num / den = 0
    · rw [shiftOf, zero, Nat.log2_zero]
      omega
    · have bits := (Nat.log2_lt zero).2 h
      unfold shiftOf
      omega
  rw [rounded]
  rcases Nat.lt_or_eq_of_le bound with less | rfl
  · exact holds_mul_two_pow less (Nat.le_of_lt shift)
  · rw [← Nat.pow_add]
    exact holds_two_pow (Nat.add_lt_add_left shift _)

/-- Rounding does not lead below a short number. -/
theorem le_roundUnits_of_short {n num den : Nat} (h : w.Short n) (le : n ≤ num / den) :
    n ≤ w.roundUnits num den := by
  obtain ⟨m, _, above, rounded⟩ := @roundUnits_eq w num den
  rw [rounded]
  generalize num / den = q at le above
  rcases Nat.lt_or_ge (w.shiftOf n) (w.shiftOf q) with coarse | fine
  · -- the quotient has more bits, and its leading one is on the grid that it is rounded to
    have precision := w.precision_pos
    have nonzero : q ≠ 0 := by
      rintro rfl
      rw [Nat.le_zero.1 le] at coarse
      exact Nat.lt_irrefl _ coarse
    have split : w.precision - 1 + w.shiftOf q = q.log2 ∧ n.log2 < q.log2 := by
      unfold shiftOf at coarse ⊢
      omega
    have leading : 2 ^ (w.precision - 1) ≤ q / 2 ^ w.shiftOf q := by
      rw [Nat.le_div_iff_mul_le (Nat.two_pow_pos _), ← Nat.pow_add, split.1]
      exact Nat.log2_self_le nonzero
    calc n ≤ 2 ^ (n.log2 + 1) := Nat.le_of_lt Nat.lt_log2_self
      _ ≤ 2 ^ (w.precision - 1 + w.shiftOf q) :=
        Nat.pow_le_pow_right Nat.two_pos (split.1 ▸ split.2)
      _ = 2 ^ (w.precision - 1) * 2 ^ w.shiftOf q := Nat.pow_add ..
      _ ≤ m * 2 ^ w.shiftOf q := Nat.mul_le_mul_right _ (Nat.le_trans leading above)
  · -- the short number is on the grid that the quotient is rounded to
    obtain ⟨c, split⟩ := Nat.dvd_trans (Nat.pow_dvd_pow 2 fine) (Nat.dvd_of_mod_eq_zero h)
    rw [split, Nat.mul_comm]
    refine Nat.mul_le_mul_right _ (Nat.le_trans ?_ above)
    rwa [Nat.le_div_iff_mul_le (Nat.two_pow_pos _), Nat.mul_comm, ← split]

/-- A quotient of one or more units does not vanish. -/
theorem roundUnits_pos {num den : Nat} (h : 0 < num / den) : 0 < w.roundUnits num den := by
  obtain ⟨m, _, above, rounded⟩ := @roundUnits_eq w num den
  have precision := w.precision_pos
  have leading : 0 < num / den / 2 ^ w.shiftOf (num / den) := by
    refine Nat.div_pos (Nat.le_trans ?_ (Nat.log2_self_le (Nat.ne_of_gt h))) (Nat.two_pow_pos _)
    refine Nat.pow_le_pow_right Nat.two_pos ?_
    unfold shiftOf
    omega
  rw [rounded]
  exact Nat.mul_pos (Nat.lt_of_lt_of_le leading above) (Nat.two_pow_pos _)

end Width

namespace Binary

variable {w : Width}

/-- A whole number of up to `precision` bits becomes a value without loss. -/
theorem ofNat_eq_finite {n : Nat} (h : n ≤ 2 ^ w.precision) :
    (ofNat n : Binary w) = .finite false (n * w.one) (Width.holds_mul_one h) := by
  have rounded : w.roundUnits (n * w.one) 1 = n * w.one := by
    have same := Width.roundUnits_of_holds (Width.holds_mul_one h) Nat.one_pos
    rwa [Nat.mul_one] at same
  simp only [ofNat, ofRatio, rounded, ofRounded, dif_pos (Width.holds_mul_one h)]

theorem toInt?_ofNat {n : Nat} (h : n ≤ 2 ^ w.precision) :
    (ofNat n : Binary w).toInt? = some (n : Int) := by
  rw [ofNat_eq_finite h]
  simp [toInt?, Nat.mul_mod_left, Nat.mul_div_cancel _ w.one_pos]

/-- The negated value denotes the negated integer. -/
theorem toInt?_neg {a : Binary w} {n : Int} (h : a.toInt? = some n) : (-a).toInt? = some (-n) := by
  cases a with
  | nan => cases h
  | infinite => cases h
  | finite negative units holds =>
      simp only [toInt?] at h
      split at h
      · next whole =>
          cases h
          change (neg (.finite negative units holds)).toInt? = _
          cases negative <;> simp [neg, toInt?, whole]
      · cases h

/-! ### Products that stay in range -/

/-- Positive, finite, and within `2 ^ k` of one in both directions. -/
def Near (k : Nat) : Binary w → Prop
  | .finite false units _ => w.one ≤ units * 2 ^ k ∧ units ≤ w.one * 2 ^ k
  | _ => False

instance (k : Nat) (a : Binary w) : Decidable (a.Near k) :=
  match a with
  | .nan => inferInstanceAs (Decidable False)
  | .infinite _ => inferInstanceAs (Decidable False)
  | .finite true _ _ => inferInstanceAs (Decidable False)
  | .finite false _ _ => inferInstanceAs (Decidable (_ ∧ _))

/-- The product of two values near one neither overflows nor vanishes. -/
theorem isPositiveFinite_mul_of_near {a b : Binary w} {j k : Nat} (ha : a.Near j) (hb : b.Near k)
    (lower : j + k ≤ w.scale) (upper : w.scale + (j + k) < w.precision + w.maxShift - 1) :
    (a * b).isPositiveFinite = true := by
  match a, b, ha, hb with
  | .finite false m _, .finite false n _, ⟨lowM, highM⟩, ⟨lowN, highN⟩ =>
      have onePos := w.one_pos
      have low : w.one * w.one ≤ m * n * 2 ^ (j + k) := by
        calc w.one * w.one ≤ m * 2 ^ j * (n * 2 ^ k) := Nat.mul_le_mul lowM lowN
          _ = m * n * 2 ^ (j + k) := by rw [Nat.pow_add]; ac_rfl
      have high : m * n ≤ w.one * (w.one * 2 ^ (j + k)) := by
        calc m * n ≤ w.one * 2 ^ j * (w.one * 2 ^ k) := Nat.mul_le_mul highM highN
          _ = w.one * (w.one * 2 ^ (j + k)) := by rw [Nat.pow_add]; ac_rfl
      have whole : 0 < m * n / w.one := by
        refine Nat.div_pos (Nat.le_of_mul_le_mul_right (Nat.le_trans low ?_) onePos) onePos
        exact Nat.mul_le_mul_left _ (Nat.pow_le_pow_right Nat.two_pos lower)
      have below : m * n / w.one < 2 ^ (w.precision + w.maxShift - 1) := by
        refine Nat.lt_of_le_of_lt (Nat.div_le_of_le_mul high) ?_
        rw [Width.one, ← Nat.pow_add]
        exact Nat.pow_lt_pow_right Nat.one_lt_two upper
      change (ofRatio false (m * n) w.one).isPositiveFinite = true
      rw [ofRatio, ofRounded, dif_pos (Width.holds_roundUnits below)]
      simp [isPositiveFinite, Nat.ne_of_gt (Width.roundUnits_pos whole)]

end Binary

end Metrology
