/-
Module: Metrology.Proofs.NearestUnits
Layer: Proofs
Purpose: Rounding goes to what is nearest. A rounded quotient is at most half a step away from the
  exact one, where the step is the last bit of the exact one's significand; and a short number in
  the binade of a quotient that is less than half a step away from it is what it is rounded to.
Imports: Metrology.Proofs.BinaryExact
Main exports: divRound_near, divRound_eq_of_near, Width.two_pow_shiftOf_le,
  Width.roundUnits_near, Width.roundUnits_eq_zero, Width.add_step_le,
  Width.eq_two_pow_or_add_step_le, Width.roundUnits_eq_of_near
-/
import Metrology.Proofs.BinaryExact

namespace Metrology

/-! ### Quotients -/

/-- A rounded quotient is at most a half away. -/
theorem divRound_near (tie : Tie) (num : Nat) {den : Nat} (pos : 0 < den) :
    2 * (divRound tie num den * den) ≤ 2 * num + den ∧
      2 * num ≤ 2 * (divRound tie num den * den) + den := by
  have split := Nat.div_add_mod num den
  have rest := Nat.mod_lt num pos
  have next : (num / den + 1) * den = num / den * den + den := Nat.succ_mul _ _
  rw [Nat.mul_comm den] at split
  simp only [divRound]
  split
  · omega
  · split
    · rw [next]
      omega
    · cases tie with
      | even =>
          simp only
          split
          · omega
          · rw [next]
            omega
      | up =>
          simp only [next]
          omega

/-- An integer less than a half away is the rounded quotient. -/
theorem divRound_eq_of_near (tie : Tie) {num den c : Nat}
    (above : 2 * (c * den) < 2 * num + den) (below : 2 * num < 2 * (c * den) + den) :
    divRound tie num den = c := by
  have pos : 0 < den := by omega
  rcases Nat.lt_or_ge num (c * den) with less | more
  · obtain ⟨d, rfl⟩ : ∃ d, c = d + 1 := by
      cases c with
      | zero => simp at less
      | succ d => exact ⟨d, rfl⟩
    have next : (d + 1) * den = d * den + den := Nat.succ_mul _ _
    rw [next] at above below less
    have quotient : num / den = d :=
      Nat.div_eq_of_lt_le (by omega) (by rw [Nat.succ_mul]; omega)
    have rest : num % den = num - d * den := by
      rw [Nat.mod_eq_sub_div_mul, quotient]
    simp only [divRound, quotient, rest]
    rw [if_neg (by omega), if_pos (by omega)]
  · have quotient : num / den = c :=
      Nat.div_eq_of_lt_le (by omega) (by rw [Nat.succ_mul]; omega)
    have rest : num % den = num - c * den := by
      rw [Nat.mod_eq_sub_div_mul, quotient]
    simp only [divRound, quotient, rest]
    rw [if_pos (by omega)]

/-! ### Units -/

namespace Width

variable {w : Width} {n num den : Nat}

/-- A number that is shifted has all bits of the precision. -/
theorem two_pow_shiftOf_le (shifted : w.shiftOf n ≠ 0) :
    2 ^ (w.precision - 1) * 2 ^ w.shiftOf n ≤ n := by
  have precision := w.precision_pos
  have nonzero : n ≠ 0 := by
    rintro rfl
    rw [shiftOf, Nat.log2_zero] at shifted
    omega
  rw [← Nat.pow_add]
  refine Nat.le_trans (Nat.pow_le_pow_right Nat.two_pos ?_) (Nat.log2_self_le nonzero)
  unfold shiftOf at shifted ⊢
  omega

/-- A rounded number of units is at most half a step away. -/
theorem roundUnits_near (num : Nat) (pos : 0 < den) :
    2 * (w.roundUnits num den * den) ≤ 2 * num + den * 2 ^ w.shiftOf (num / den) ∧
      2 * num ≤ 2 * (w.roundUnits num den * den) + den * 2 ^ w.shiftOf (num / den) := by
  have near := divRound_near .even num (Nat.mul_pos pos (Nat.two_pow_pos (w.shiftOf (num / den))))
  have regroup : w.roundUnits num den * den =
      divRound .even num (den * 2 ^ w.shiftOf (num / den)) *
        (den * 2 ^ w.shiftOf (num / den)) := by
    rw [roundUnits, Nat.mul_assoc, Nat.mul_comm den]
  rwa [regroup]

/-- Half a unit goes to the even neighbour, zero, and so does everything below it. -/
theorem roundUnits_eq_zero (pos : 0 < den) (small : 2 * num ≤ den) : w.roundUnits num den = 0 := by
  have less : num < den := by omega
  have shift : w.shiftOf 0 = 0 := by cases w <;> rfl
  simp only [roundUnits, Nat.div_eq_of_lt less, shift, Nat.pow_zero, Nat.mul_one, divRound,
    Nat.mod_eq_of_lt less]
  split
  · rfl
  · rw [if_neg (by omega)]
    rfl

/-- The quotient lies between a number and the next power of two above it. -/
theorem shiftOf_eq_of_binade {q : Nat} (lower : 2 ^ n.log2 ≤ q) (upper : q < 2 ^ (n.log2 + 1)) :
    w.shiftOf q = w.shiftOf n := by
  have nonzero : q ≠ 0 := Nat.ne_of_gt (Nat.lt_of_lt_of_le (Nat.two_pow_pos _) lower)
  have same : q.log2 = n.log2 := by
    have least := (Nat.le_log2 nonzero).2 lower
    have most := (Nat.log2_lt nonzero).2 upper
    omega
  rw [shiftOf, shiftOf, same]

/-- A short number leaves room for a step below the next power of two. -/
theorem add_step_le (short : w.Short n) (nonzero : n ≠ 0) :
    n + 2 ^ w.shiftOf n ≤ 2 ^ (n.log2 + 1) := by
  have bits : w.shiftOf n ≤ n.log2 + 1 := Nat.sub_le _ _
  obtain ⟨c, multiple⟩ := Nat.dvd_of_mod_eq_zero short
  have split : 2 ^ (n.log2 + 1) = 2 ^ w.shiftOf n * 2 ^ (n.log2 + 1 - w.shiftOf n) := by
    rw [← Nat.pow_add, Nat.add_sub_cancel' bits]
  have below : n < 2 ^ (n.log2 + 1) := Nat.lt_log2_self
  generalize w.shiftOf n = s at *
  generalize 2 ^ (n.log2 + 1) = top at *
  generalize 2 ^ (n.log2 + 1 - s) = k at *
  subst split multiple
  have less := Nat.lt_of_mul_lt_mul_left below
  calc 2 ^ s * c + 2 ^ s = 2 ^ s * (c + 1) := (Nat.mul_succ _ _).symm
    _ ≤ 2 ^ s * k := Nat.mul_le_mul_left _ less

/-- A short number is the power of two below it, or at least a step above that. -/
theorem eq_two_pow_or_add_step_le (short : w.Short n) (nonzero : n ≠ 0) :
    n = 2 ^ n.log2 ∨ 2 ^ n.log2 + 2 ^ w.shiftOf n ≤ n := by
  have bits : w.shiftOf n ≤ n.log2 := by
    have precision := w.precision_pos
    unfold shiftOf
    omega
  obtain ⟨c, multiple⟩ := Nat.dvd_of_mod_eq_zero short
  have split : 2 ^ n.log2 = 2 ^ w.shiftOf n * 2 ^ (n.log2 - w.shiftOf n) := by
    rw [← Nat.pow_add, Nat.add_sub_cancel' bits]
  have lower : 2 ^ n.log2 ≤ n := Nat.log2_self_le nonzero
  generalize w.shiftOf n = s at *
  generalize 2 ^ n.log2 = bottom at *
  generalize 2 ^ (n.log2 - s) = k at *
  subst split multiple
  rcases Nat.lt_or_eq_of_le (Nat.le_of_mul_le_mul_left lower (Nat.two_pow_pos s)) with less | rfl
  · right
    calc 2 ^ s * k + 2 ^ s = 2 ^ s * (k + 1) := (Nat.mul_succ _ _).symm
      _ ≤ 2 ^ s * c := Nat.mul_le_mul_left _ less
  · exact .inl rfl

/-- A short number less than half a step away from a quotient in its binade is the rounded one. -/
theorem roundUnits_eq_of_near (short : w.Short n) (nonzero : n ≠ 0)
    (binade : 2 ^ n.log2 * den ≤ num)
    (above : 2 * (n * den) < 2 * num + den * 2 ^ w.shiftOf n)
    (below : 2 * num < 2 * (n * den) + den * 2 ^ w.shiftOf n) : w.roundUnits num den = n := by
  have pos : 0 < den := by
    rcases Nat.eq_zero_or_pos den with rfl | pos
    · omega
    · exact pos
  have lower : 2 ^ n.log2 ≤ num / den := (Nat.le_div_iff_mul_le pos).2 binade
  have upper : num / den < 2 ^ (n.log2 + 1) := by
    refine Nat.lt_of_lt_of_le ?_ (add_step_le short nonzero)
    rw [Nat.div_lt_iff_lt_mul pos, Nat.add_mul, Nat.mul_comm (2 ^ _)]
    omega
  have shift : w.shiftOf (num / den) = w.shiftOf n := shiftOf_eq_of_binade lower upper
  obtain ⟨c, multiple⟩ := Nat.dvd_of_mod_eq_zero short
  have grid : n * den = c * (den * 2 ^ w.shiftOf n) := by
    calc n * den = 2 ^ w.shiftOf n * c * den := by rw [← multiple]
      _ = c * (den * 2 ^ w.shiftOf n) := by ac_rfl
  rw [grid] at above below
  simp only [roundUnits, shift]
  rw [divRound_eq_of_near .even above below, Nat.mul_comm, ← multiple]

end Width

end Metrology
