/-
Module: Metrology.Proofs.BinaryRatio
Layer: Proofs
Purpose: Products and quotients of binary values as rounded ratios. A rounded ratio does not depend
  on the fraction it is written as; so multiplication commutes, one is neutral, and dividing by a
  power of two is multiplying by its reciprocal. Other reciprocals are rounded themselves, and a
  product with one is rounded twice.
Imports: Metrology.Proofs.BinaryExact
Main exports: divRound_mul_mul, Width.roundUnits_congr, Binary.mul_comm, Binary.one_mul,
  Binary.div_one, Binary.div_self, Binary.convert_self, Binary.convert_one, Binary.InvertiblePower,
  Binary.InvertiblePower.mul_reciprocal, Binary.of_isFinite_mul, Binary.of_squareMultiply,
  Binary.isPositiveFinite_left_of_mul, Binary.isPositiveFinite_reciprocal_of_mul
-/
import Metrology.Proofs.BinaryExact

namespace Metrology

/-- A rounded quotient does not change when the fraction is expanded. -/
theorem divRound_mul_mul (tie : Tie) (num den : Nat) {c : Nat} (pos : 0 < c) :
    divRound tie (num * c) (den * c) = divRound tie num den := by
  have below : num * c / (den * c) = num / den := Nat.mul_div_mul_right _ _ pos
  have rest : 2 * (num * c % (den * c)) = 2 * (num % den) * c := by
    rw [Nat.mul_mod_mul_right, Nat.mul_assoc]
  have less : 2 * (num % den) * c < den * c ↔ 2 * (num % den) < den := Nat.mul_lt_mul_right pos
  have more : den * c < 2 * (num % den) * c ↔ den < 2 * (num % den) := Nat.mul_lt_mul_right pos
  simp only [divRound, below, rest, less, more]

namespace Width

variable {w : Width}

theorem roundUnits_mul_mul (num den : Nat) {c : Nat} (pos : 0 < c) :
    w.roundUnits (num * c) (den * c) = w.roundUnits num den := by
  simp only [roundUnits, Nat.mul_div_mul_right _ _ pos]
  rw [Nat.mul_right_comm, divRound_mul_mul .even num _ pos]

/-- Fractions of the same value are rounded to the same magnitude. -/
theorem roundUnits_congr {a b c d : Nat} (posB : 0 < b) (posD : 0 < d) (same : a * d = c * b) :
    w.roundUnits a b = w.roundUnits c d := by
  calc w.roundUnits a b = w.roundUnits (a * d) (b * d) := (roundUnits_mul_mul a b posD).symm
    _ = w.roundUnits (c * b) (d * b) := by rw [same, Nat.mul_comm b d]
    _ = w.roundUnits c d := roundUnits_mul_mul c d posB

theorem roundUnits_zero (den : Nat) : w.roundUnits 0 den = 0 := by
  simp [roundUnits, divRound]

end Width

namespace Binary

variable {w : Width}

/-! ### Laws -/

/-- A ratio that is a magnitude of the format is not rounded. -/
theorem ofRatio_of_holds {n den : Nat} (negative : Bool) (holds : w.Holds n) (pos : 0 < den) :
    (ofRatio negative (n * den) den : Binary w) = .finite negative n holds := by
  simp only [ofRatio, Width.roundUnits_of_holds holds pos, ofRounded, dif_pos holds]

theorem mul_comm (a b : Binary w) : a * b = b * a := by
  change mul a b = mul b a
  cases a <;> cases b <;> simp [mul, Bool.xor_comm, Nat.mul_comm]

theorem one_mul (a : Binary w) : one * a = a := by
  change mul one a = a
  cases a with
  | nan => rfl
  | infinite t => simp [mul, one, Nat.ne_of_gt w.one_pos]
  | finite t n holds =>
      simp only [mul, one, Bool.false_xor, Nat.mul_comm w.one n]
      exact ofRatio_of_holds t holds w.one_pos

theorem div_one (a : Binary w) : a / one = a := by
  change div a one = a
  cases a with
  | nan => rfl
  | infinite s => simp [div, one]
  | finite s m holds =>
      simp only [div, one, Nat.ne_of_gt w.one_pos, if_false, Bool.xor_false]
      exact ofRatio_of_holds s holds w.one_pos

theorem mul_one (a : Binary w) : a * one = a := by
  rw [mul_comm, one_mul]

theorem div_self {a : Binary w} (h : a.isPositiveFinite = true) : a / a = one := by
  change div a a = one
  cases a with
  | nan => cases h
  | infinite s => cases h
  | finite s m holds =>
      simp only [isPositiveFinite, Bool.and_eq_true, Bool.not_eq_true', bne_iff_ne] at h
      simp only [div, h.2, if_false, Bool.xor_self, Nat.mul_comm m w.one]
      exact ofRatio_of_holds false w.holds_one (Nat.pos_of_ne_zero h.2)

/-- A value in its own format is not rounded. -/
theorem convert_self (a : Binary w) : a.convert w = a := by
  cases a with
  | nan => rfl
  | infinite s => rfl
  | finite s m holds => exact ofRatio_of_holds s holds w.one_pos

/-- Every format holds one. -/
theorem convert_one (v w : Width) : (one : Binary v).convert w = one := by
  simp only [one, convert, Nat.mul_comm v.one]
  exact ofRatio_of_holds false w.holds_one v.one_pos

/-! ### Reciprocals of powers of two -/

/-- A power of two whose reciprocal does not overflow. -/
def InvertiblePower (k : Binary w) : Prop :=
  ∃ i h, k = .finite false (2 ^ i) h ∧ 2 * w.scale < i + (w.precision + w.maxShift)

/-- The reciprocal of a power of two is one. -/
theorem InvertiblePower.reciprocal {k : Binary w} (h : k.InvertiblePower) :
    ∃ i j hi hj, k = .finite false (2 ^ i) hi ∧ one / k = .finite false (2 ^ j) hj ∧
      2 ^ i * 2 ^ j = w.one * w.one := by
  obtain ⟨i, holds, rfl, finite⟩ := h
  have exponent : i < w.precision + w.maxShift :=
    (Nat.pow_lt_pow_iff_right Nat.one_lt_two).1 holds.1
  have enough : w.precision + w.maxShift ≤ 2 * w.scale := by cases w <;> decide
  have holdsJ : w.Holds (2 ^ (2 * w.scale - i)) := Width.holds_two_pow (by omega)
  have split : 2 ^ (2 * w.scale - i) * 2 ^ i = w.one * w.one := by
    rw [Width.one, ← Nat.pow_add, ← Nat.pow_add]
    congr 1
    omega
  refine ⟨i, _, holds, holdsJ, rfl, ?_, by rw [Nat.mul_comm, split]⟩
  have pos : 0 < 2 ^ i := Nat.two_pow_pos i
  have exact := ofRatio_of_holds false holdsJ pos
  rw [split] at exact
  change div one (.finite false (2 ^ i) holds) = _
  simp only [div, one, Nat.ne_of_gt pos, if_false, Bool.xor_false]
  exact exact

/-- Multiplying by the reciprocal of a power of two is dividing by it. -/
theorem InvertiblePower.mul_reciprocal {k : Binary w} (h : k.InvertiblePower) (a : Binary w) :
    a * (one / k) = a / k := by
  obtain ⟨i, j, holdsI, holdsJ, rfl, inverse, split⟩ := h.reciprocal
  have posI : 0 < 2 ^ i := Nat.two_pow_pos i
  have posJ : 0 < 2 ^ j := Nat.two_pow_pos j
  rw [inverse]
  change mul a _ = div a _
  cases a with
  | nan => rfl
  | infinite s => simp only [mul, div, Nat.ne_of_gt posJ, if_false]
  | finite s m holds =>
      simp only [mul, div, Nat.ne_of_gt posI, if_false, ofRatio]
      have same : m * 2 ^ j * 2 ^ i = m * w.one * w.one := by
        rw [Nat.mul_assoc, Nat.mul_comm (2 ^ j), split, Nat.mul_assoc]
      rw [Width.roundUnits_congr w.one_pos posI same]

/-! ### Finite products -/

/-- Neither infinity nor what is no number becomes finite in a product. -/
theorem of_isFinite_mul {a b : Binary w} (h : (a * b).isFinite = true) :
    a.isFinite = true ∧ b.isFinite = true := by
  change (mul a b).isFinite = true at h
  cases a with
  | nan => cases h
  | infinite s =>
      cases b with
      | nan => cases h
      | infinite t => cases h
      | finite t n _ => by_cases zero : n = 0 <;> simp [mul, zero, isFinite] at h
  | finite s m _ =>
      cases b with
      | nan => cases h
      | infinite t => by_cases zero : m = 0 <;> simp [mul, zero, isFinite] at h
      | finite t n _ => exact ⟨rfl, rfl⟩

/-- What a product has only of both its factors, a power by squaring has of its base: squaring takes
    the base in at the last binary digit of the exponent at the latest. -/
theorem of_squareMultiply {P : Binary w → Prop} (factors : ∀ {a b}, P (a * b) → P a ∧ P b)
    {acc base : Binary w} {count : Nat} (h : P (squareMultiply acc base count)) :
    P acc ∧ (count ≠ 0 → P base) := by
  fun_induction squareMultiply acc base count with
  | case1 acc base count multiplied last =>
      dsimp only [multiplied] at h
      split at h
      · obtain ⟨left, right⟩ := factors h
        exact ⟨left, fun _ => right⟩
      · exact ⟨h, fun positive => by omega⟩
  | case2 acc base count multiplied more ih =>
      obtain ⟨left, right⟩ := ih h
      refine ⟨?_, fun _ => (factors (right more)).1⟩
      dsimp only [multiplied] at left
      split at left
      · exact (factors left).1
      · exact left

theorem of_isPositiveFinite_ofRatio {negative : Bool} {num den : Nat}
    (h : (ofRatio negative num den : Binary w).isPositiveFinite = true) :
    negative = false ∧ num ≠ 0 := by
  unfold ofRatio ofRounded at h
  split at h
  · simp only [isPositiveFinite, Bool.and_eq_true, Bool.not_eq_true', bne_iff_ne] at h
    refine ⟨h.1, ?_⟩
    rintro rfl
    exact h.2 (Width.roundUnits_zero den)
  · cases h

/-- A positive finite product has finite factors of one sign, none of which is zero. -/
theorem of_isPositiveFinite_mul {a b : Binary w} (h : (a * b).isPositiveFinite = true) :
    ∃ s m n hm hn, a = .finite s m hm ∧ b = .finite s n hn ∧ m ≠ 0 ∧ n ≠ 0 := by
  obtain ⟨finiteA, finiteB⟩ := of_isFinite_mul (isFinite_of_isPositiveFinite h)
  cases a with
  | nan | infinite s => cases finiteA
  | finite s m hm =>
      cases b with
      | nan | infinite t => cases finiteB
      | finite t n hn =>
          obtain ⟨sign, product⟩ := of_isPositiveFinite_ofRatio h
          obtain rfl : s = t := by simpa using sign
          rw [Nat.mul_ne_zero_iff] at product
          exact ⟨s, m, n, hm, hn, rfl, rfl, product⟩

/-- A positive finite multiple of a number makes the number positive and finite. -/
theorem isPositiveFinite_left_of_mul {a b : Binary w} (h : (a * b).isPositiveFinite = true)
    (hb : b.isPositiveFinite = true) : a.isPositiveFinite = true := by
  obtain ⟨s, m, n, hm, hn, rfl, rfl, posM, _⟩ := of_isPositiveFinite_mul h
  simp only [isPositiveFinite, Bool.and_eq_true, Bool.not_eq_true', bne_iff_ne] at hb ⊢
  exact ⟨hb.1, posM⟩

/-- A reciprocal that a product is positive and finite with has not overflowed. -/
theorem isPositiveFinite_reciprocal_of_mul {a k : Binary w}
    (h : (a * (one / k)).isPositiveFinite = true) (hk : k.isPositiveFinite = true) :
    (one / k).isPositiveFinite = true := by
  obtain ⟨s, m, n, hm, hn, _, inverse, _, posN⟩ := of_isPositiveFinite_mul h
  rw [inverse]
  cases k with
  | nan => cases hk
  | infinite t => cases hk
  | finite t units holds =>
      simp only [isPositiveFinite, Bool.and_eq_true, Bool.not_eq_true', bne_iff_ne] at hk ⊢
      obtain ⟨rfl, nonzero⟩ := hk
      change div one _ = _ at inverse
      simp only [div, one, nonzero, if_false, Bool.xor_false, ofRatio, ofRounded] at inverse
      split at inverse
      · cases inverse
        exact ⟨rfl, posN⟩
      · cases inverse

end Binary

end Metrology
