/-
Module: Metrology.Proofs.DigitwiseRounding
Layer: Proofs
Purpose: Digits taken in one at a time, with a rounding after each. As long as the digits fit into
  the precision nothing is rounded; the first ones that do not fit are rounded, and from there on
  every digit is dropped, since it is less than half of what the rounded number is a multiple of. So
  the result differs from the number rounded once exactly if the rounded digits were half way and
  went down to an even significand, although a digit that is not zero was still to come.
Imports: Mathlib.Data.List.Induction, Mathlib.Tactic.Ring, Metrology.Digit,
  Metrology.Proofs.ShortSignificand
Main exports: divRound_append, Width.nearest, Width.TiesDown, Width.nearest_append,
  Width.nearest_mul_two_pow, Width.digitwise, Width.DropsLast, Width.exists_digitwise_eq,
  Width.digitwise_le, Width.LosesTie, Width.digitwise_eq_nearest_iff, Width.digitwise_of_short,
  Binary.ofNat_nearest, Binary.foldl_digits_eq_ofNat
-/
import Mathlib.Data.List.Induction
import Mathlib.Tactic.Ring
import Metrology.Digit
import Metrology.Proofs.ShortSignificand

namespace Metrology

/-! ### Fractions with further digits -/

section Append

variable {p den c r : Nat}

theorem append_div (below : r < c) : (p * c + r) / (den * c) = p / den := by
  have pos : 0 < c := Nat.zero_lt_of_lt below
  rw [Nat.mul_comm den, ← Nat.div_div_eq_div_mul, Nat.mul_comm p, Nat.mul_add_div pos,
    Nat.div_eq_of_lt below, Nat.add_zero]

theorem append_mod (below : r < c) : (p * c + r) % (den * c) = p % den * c + r := by
  have pos : 0 < c := Nat.zero_lt_of_lt below
  rw [Nat.mul_comm den, Nat.mod_mul, Nat.mul_comm p, Nat.mul_add_mod, Nat.mod_eq_of_lt below,
    Nat.mul_add_div pos, Nat.div_eq_of_lt below, Nat.add_zero]
  ring

/-- Further digits only matter to a rounded quotient that is half way and would go down. -/
theorem divRound_append (half : Nat) (even : den = 2 * half) (below : r < c) :
    divRound .even (p * c + r) (den * c) =
      if 2 * (p % den) = den ∧ p / den % 2 = 0 ∧ r ≠ 0 then p / den + 1
      else divRound .even p den := by
  simp only [divRound, append_div below, append_mod below]
  subst even
  generalize p % (2 * half) = x
  generalize p / (2 * half) = q
  have product : 2 * half * c = 2 * (half * c) := Nat.mul_assoc ..
  have apart {a b : Nat} (less : a < b) : a * c + c ≤ b * c := by
    rw [← Nat.succ_mul]
    exact Nat.mul_le_mul_right c less
  rcases Nat.lt_trichotomy x half with less | rfl | more
  · have room := apart less
    rw [product, if_pos (by omega), if_neg (by omega), if_pos (by omega)]
  · -- half way, so that the further digits decide unless they are all zero
    rw [product, if_neg (by omega)]
    rcases Nat.eq_zero_or_pos r with rfl | pos
    · simp
    · rw [if_pos (by omega)]
      by_cases parity : q % 2 = 0
      · rw [if_pos ⟨rfl, parity, by omega⟩]
      · simp [parity]
  · have room := apart more
    rw [product, if_neg (by omega), if_pos (by omega), if_neg (by omega), if_neg (by omega),
      if_pos (by omega)]

end Append

namespace Width

variable {w : Width} {n p i r : Nat}

/-! ### The nearest short number -/

/-- The short number nearest to `n`; half way it is the one with the even significand. -/
def nearest (w : Width) (n : Nat) : Nat := w.roundUnits n 1

theorem nearest_eq (n : Nat) :
    w.nearest n = divRound .even n (2 ^ w.shiftOf n) * 2 ^ w.shiftOf n := by
  simp [nearest, roundUnits]

theorem nearest_of_short (h : w.Short n) : w.nearest n = n := by
  have exact := roundUnits_of_short h Nat.one_pos
  rwa [Nat.mul_one] at exact

theorem short_nearest (n : Nat) : w.Short (w.nearest n) := short_roundUnits n 1

theorem shiftOf_eq_zero_iff : w.shiftOf n = 0 ↔ n < 2 ^ w.precision := by
  have precision := w.precision_pos
  rcases Nat.eq_zero_or_pos n with rfl | pos
  · refine iff_of_true ?_ (Nat.two_pow_pos _)
    rw [shiftOf, Nat.log2_zero]
    omega
  · rw [← Nat.log2_lt (Nat.ne_of_gt pos), shiftOf]
    omega

/-- A number that does not fit into the precision is shifted. -/
theorem shiftOf_pos_iff : 0 < w.shiftOf n ↔ 2 ^ w.precision ≤ n := by
  rw [Nat.pos_iff_ne_zero, Ne, shiftOf_eq_zero_iff, Nat.not_lt]

theorem ne_zero_of_shiftOf_pos (long : 0 < w.shiftOf n) : n ≠ 0 := by
  rintro rfl
  exact absurd (shiftOf_pos_iff.1 long) (Nat.not_le.2 (Nat.two_pow_pos _))

/-- Further digits are further bits of the shift. -/
theorem shiftOf_append (long : 0 < w.shiftOf p) (below : r < 2 ^ i) :
    w.shiftOf (p * 2 ^ i + r) = w.shiftOf p + i := by
  have lower : 2 ^ (p.log2 + i) ≤ p * 2 ^ i + r := by
    rw [Nat.pow_add]
    refine Nat.le_add_right_of_le (Nat.mul_le_mul_right _ ?_)
    exact Nat.log2_self_le (ne_zero_of_shiftOf_pos long)
  have upper : p * 2 ^ i + r < 2 ^ (p.log2 + i + 1) := by
    calc p * 2 ^ i + r < (p + 1) * 2 ^ i := by rw [Nat.add_mul, Nat.one_mul]; omega
      _ ≤ 2 ^ (p.log2 + 1) * 2 ^ i := Nat.mul_le_mul_right _ Nat.lt_log2_self
      _ = 2 ^ (p.log2 + i + 1) := by rw [← Nat.pow_add]; congr 1; omega
  have bits : (p * 2 ^ i + r).log2 = p.log2 + i := by
    refine (Nat.log2_eq_iff ?_).2 ⟨lower, upper⟩
    exact Nat.ne_of_gt (Nat.lt_of_lt_of_le (Nat.two_pow_pos _) lower)
  unfold shiftOf at long ⊢
  rw [bits]
  omega

/-- Half way between two short numbers, of which the lower one has the even significand. -/
def TiesDown (w : Width) (n : Nat) : Prop :=
  2 * (n % 2 ^ w.shiftOf n) = 2 ^ w.shiftOf n ∧ n / 2 ^ w.shiftOf n % 2 = 0

/-- What fits into the precision is not half way. -/
theorem TiesDown.long (h : w.TiesDown n) : 0 < w.shiftOf n := by
  rw [Nat.pos_iff_ne_zero]
  intro zero
  have half := h.1
  rw [zero, Nat.pow_zero, Nat.mod_one] at half
  omega

theorem not_tiesDown_of_short (h : w.Short n) : ¬ w.TiesDown n := by
  intro ties
  have half := ties.1
  rw [show n % 2 ^ w.shiftOf n = 0 from h] at half
  exact absurd half.symm (Nat.ne_of_gt (Nat.two_pow_pos _))

/-- The step of a number that does not fit into the precision is even. -/
theorem exists_half (long : 0 < w.shiftOf p) : ∃ half, 2 ^ w.shiftOf p = 2 * half := by
  obtain ⟨s, shift⟩ := Nat.exists_eq_succ_of_ne_zero (Nat.ne_of_gt long)
  exact ⟨2 ^ s, by rw [shift, Nat.pow_succ, Nat.mul_comm]⟩

/-- A number that is half way has leading digits that are. -/
theorem TiesDown.of_append (long : 0 < w.shiftOf p) (below : r < 2 ^ i)
    (h : w.TiesDown (p * 2 ^ i + r)) : w.TiesDown p := by
  obtain ⟨half, parity⟩ := h
  rw [shiftOf_append long below, Nat.pow_add] at half parity
  rw [append_mod below] at half
  rw [append_div below] at parity
  refine ⟨?_, parity⟩
  obtain ⟨step, even⟩ := exists_half long
  rw [even] at half ⊢
  have same : p % (2 * step) * 2 ^ i + r = step * 2 ^ i := by
    rw [Nat.mul_assoc] at half
    omega
  have quotient := congrArg (· / 2 ^ i) same
  simp only [Nat.mul_comm _ (2 ^ i), Nat.mul_add_div (Nat.two_pow_pos i), Nat.div_eq_of_lt below,
    Nat.mul_div_cancel_left _ (Nat.two_pow_pos i)] at quotient
  omega

/-- Digits behind a number that does not fit into the precision are dropped, unless it is half way
    and goes down. -/
theorem nearest_append (long : 0 < w.shiftOf p) (below : r < 2 ^ i) :
    w.nearest (p * 2 ^ i + r) = w.nearest p * 2 ^ i ↔ ¬ (w.TiesDown p ∧ r ≠ 0) := by
  obtain ⟨half, even⟩ := exists_half long
  have stepPos : 0 < 2 ^ w.shiftOf p * 2 ^ i := Nat.mul_pos (Nat.two_pow_pos _) (Nat.two_pow_pos _)
  rw [nearest_eq, nearest_eq, shiftOf_append long below, Nat.pow_add,
    divRound_append half even below, Nat.mul_assoc, Nat.mul_left_inj (Nat.ne_of_gt stepPos)]
  by_cases ties : w.TiesDown p
  · have down : divRound .even p (2 ^ w.shiftOf p) = p / 2 ^ w.shiftOf p := by
      simp [divRound, ties.1, ties.2]
    simp only [ties, ties.1, ties.2, true_and, down]
    by_cases none : r = 0 <;> simp [none]
  · have kept : ¬ (2 * (p % 2 ^ w.shiftOf p) = 2 ^ w.shiftOf p ∧ p / 2 ^ w.shiftOf p % 2 = 0 ∧
        r ≠ 0) := by
      rintro ⟨half, parity, -⟩
      exact ties ⟨half, parity⟩
    simp [kept, ties]

theorem nearest_mul_two_pow (n k : Nat) : w.nearest (n * 2 ^ k) = w.nearest n * 2 ^ k := by
  rcases Nat.eq_zero_or_pos (w.shiftOf n) with fits | long
  · have short := @short_of_lt w _ (shiftOf_eq_zero_iff.1 fits)
    rw [nearest_of_short short, nearest_of_short (short.mul_two_pow k)]
  · exact (nearest_append long (Nat.two_pow_pos k)).2 fun ⟨_, some_⟩ => some_ rfl

/-- Rounding does not lead below what does not fit into the precision. -/
theorem shiftOf_nearest_pos (long : 0 < w.shiftOf n) : 0 < w.shiftOf (w.nearest n) := by
  rw [shiftOf_pos_iff] at long ⊢
  refine le_roundUnits_of_short (short_two_pow _) ?_
  rwa [Nat.div_one]

theorem nearest_le (n : Nat) : w.nearest n ≤ 2 * n := by
  rcases Nat.eq_zero_or_pos (w.shiftOf n) with fits | long
  · rw [nearest_of_short (short_of_lt (shiftOf_eq_zero_iff.1 fits))]
    omega
  · have step : 2 ^ w.shiftOf n ≤ n := by
      have precision := w.precision_pos
      refine Nat.le_trans (Nat.pow_le_pow_right Nat.two_pos ?_)
        (Nat.log2_self_le (ne_zero_of_shiftOf_pos long))
      unfold shiftOf
      omega
    have next : divRound .even n (2 ^ w.shiftOf n) ≤ n / 2 ^ w.shiftOf n + 1 := by
      rcases divRound_eq_or .even n (2 ^ w.shiftOf n) with same | next <;> omega
    calc w.nearest n ≤ (n / 2 ^ w.shiftOf n + 1) * 2 ^ w.shiftOf n := by
          rw [nearest_eq]
          exact Nat.mul_le_mul_right _ next
      _ = n / 2 ^ w.shiftOf n * 2 ^ w.shiftOf n + 2 ^ w.shiftOf n := Nat.succ_mul ..
      _ ≤ 2 * n := by
          have below := Nat.div_mul_le_self n (2 ^ w.shiftOf n)
          omega

/-! ### A rounding after every digit -/

variable {k d : Nat} {digits : List Nat}

/-- Digits taken in one at a time, with a rounding after each. -/
def digitwise (w : Width) (radix : Nat) (digits : List Nat) : Nat :=
  digits.foldl (fun value digit => w.nearest (value * radix + digit)) 0

theorem digitwise_append_singleton (radix : Nat) (digits : List Nat) (d : Nat) :
    w.digitwise radix (digits ++ [d]) = w.nearest (w.digitwise radix digits * radix + d) := by
  simp [digitwise]

theorem short_digitwise (radix : Nat) (digits : List Nat) : w.Short (w.digitwise radix digits) := by
  induction digits using List.reverseRecOn with
  | nil => exact short_of_lt (Nat.two_pow_pos _)
  | append_singleton digits d _ =>
      rw [digitwise_append_singleton]
      exact short_nearest _

/-- Behind a rounded number that does not fit into the precision every digit is dropped: it is less
    than half of what the number is a multiple of. -/
theorem nearest_append_of_short (short : w.Short p) (long : 0 < w.shiftOf p) (below : r < 2 ^ i) :
    w.nearest (p * 2 ^ i + r) = p * 2 ^ i := by
  rw [(nearest_append long below).2 fun ⟨ties, _⟩ => not_tiesDown_of_short short ties,
    nearest_of_short short]

/-- Of digits of `k` bits the last `j` are dropped: the digits before them fit into the precision
    without the last one of these, and unless none is dropped they do not fit with it. -/
structure DropsLast (w : Width) (k n j : Nat) : Prop where
  fits : n / 2 ^ (k * (j + 1)) < 2 ^ w.precision
  long : j = 0 ∨ 0 < w.shiftOf (n / 2 ^ (k * j))

/-- Digits that are rounded each come to the first ones that do not fit into the precision, rounded
    once, and zeros. -/
theorem exists_digitwise_eq (below : ∀ d ∈ digits, d < 2 ^ k) :
    ∃ j, w.DropsLast k (positional (2 ^ k) digits) j ∧
      w.digitwise (2 ^ k) digits =
        w.nearest (positional (2 ^ k) digits / 2 ^ (k * j)) * 2 ^ (k * j) := by
  induction digits using List.reverseRecOn with
  | nil =>
      refine ⟨0, ⟨?_, .inl rfl⟩, ?_⟩
      · rw [positional, List.foldl_nil, Nat.zero_div]
        exact Nat.two_pow_pos _
      · rw [digitwise, positional, List.foldl_nil, List.foldl_nil, Nat.zero_div,
          nearest_of_short (short_of_lt (Nat.two_pow_pos _)), Nat.zero_mul]
  | append_singleton digits d ih =>
      have last : d < 2 ^ k := below d (by simp)
      have value : positional (2 ^ k) (digits ++ [d]) = positional (2 ^ k) digits * 2 ^ k + d :=
        positional_append ..
      obtain ⟨j, ⟨fits, first⟩, same⟩ := ih fun d mem => below d (by simp [mem])
      rw [digitwise_append_singleton, value, same]
      generalize positional (2 ^ k) digits = n at fits first
      have leading (j : Nat) : (n * 2 ^ k + d) / 2 ^ (k * (j + 1)) = n / 2 ^ (k * j) := by
        rw [Nat.mul_succ, Nat.pow_add]
        exact append_div last
      rcases Nat.eq_zero_or_pos (w.shiftOf (n / 2 ^ (k * j))) with short | long
      · -- nothing has been rounded yet, so the new digit is the first one that may be
        obtain rfl : j = 0 := first.resolve_right (Nat.not_lt.2 (Nat.le_of_eq short))
        rw [Nat.mul_zero, Nat.pow_zero, Nat.div_one] at short
        have small := shiftOf_eq_zero_iff.1 short
        refine ⟨0, ⟨?_, .inl rfl⟩, ?_⟩
        · rwa [leading 0, Nat.mul_zero, Nat.pow_zero, Nat.div_one]
        · simp only [Nat.mul_zero, Nat.pow_zero, Nat.div_one, Nat.mul_one,
            nearest_of_short (short_of_lt small)]
      · refine ⟨j + 1, ⟨?_, .inr ?_⟩, ?_⟩
        · rwa [leading (j + 1)]
        · rwa [leading j]
        · rw [leading j, Nat.mul_assoc, ← Nat.pow_add, Nat.mul_succ]
          refine nearest_append_of_short (short_nearest _) (shiftOf_nearest_pos long) ?_
          exact Nat.lt_of_lt_of_le last (Nat.pow_le_pow_right Nat.two_pos (Nat.le_add_left ..))

theorem digitwise_le (below : ∀ d ∈ digits, d < 2 ^ k) :
    w.digitwise (2 ^ k) digits ≤ 2 * positional (2 ^ k) digits := by
  obtain ⟨j, -, same⟩ := @exists_digitwise_eq w _ _ below
  rw [same, ← nearest_mul_two_pow]
  exact Nat.le_trans (nearest_le _) (Nat.mul_le_mul_left 2 (Nat.div_mul_le_self ..))

/-- Leading digits are half way and go down, although a digit that is not zero is still to come. -/
def LosesTie (w : Width) (radix n : Nat) : Prop :=
  ∃ i, w.TiesDown (n / radix ^ i) ∧ n % radix ^ i ≠ 0

/-- Only the first digits that do not fit into the precision can lose a tie. -/
theorem DropsLast.losesTie_iff {j : Nat} (h : w.DropsLast k n j) :
    w.LosesTie (2 ^ k) n ↔ w.TiesDown (n / 2 ^ (k * j)) ∧ n % 2 ^ (k * j) ≠ 0 := by
  simp only [LosesTie, ← Nat.pow_mul]
  refine ⟨fun ⟨i, ties, some_⟩ => ?_, fun lost => ⟨j, lost⟩⟩
  have order : i ≤ j := by
    by_contra more
    have fewer : n / 2 ^ (k * i) ≤ n / 2 ^ (k * (j + 1)) := Nat.div_le_div_left
      (Nat.pow_le_pow_right Nat.two_pos (Nat.mul_le_mul_left k (Nat.not_le.1 more)))
      (Nat.two_pow_pos _)
    have short := shiftOf_eq_zero_iff.2 (Nat.lt_of_le_of_lt fewer h.fits)
    exact Nat.ne_of_gt ties.long short
  have long : 0 < w.shiftOf (n / 2 ^ (k * j)) := by
    refine h.long.resolve_left ?_
    rintro rfl
    obtain rfl := Nat.le_zero.1 order
    exact some_ (Nat.mod_one n)
  obtain ⟨c, split⟩ := Nat.exists_eq_add_of_le (Nat.mul_le_mul_left k order)
  have leading : n / 2 ^ (k * i) / 2 ^ c = n / 2 ^ (k * j) := by
    rw [Nat.div_div_eq_div_mul, ← Nat.pow_add, ← split]
  constructor
  · rw [← Nat.div_add_mod' (n / 2 ^ (k * i)) (2 ^ c), leading] at ties
    exact ties.of_append long (Nat.mod_lt _ (Nat.two_pow_pos c))
  · intro none
    refine some_ (Nat.mod_eq_zero_of_dvd (Nat.dvd_trans ?_ (Nat.dvd_of_mod_eq_zero none)))
    rw [split]
    exact Nat.pow_dvd_pow 2 (Nat.le_add_right ..)

/-- Rounding after every digit gives the number rounded once, unless the digits that were rounded
    lose a tie. -/
theorem digitwise_eq_nearest_iff (below : ∀ d ∈ digits, d < 2 ^ k) :
    w.digitwise (2 ^ k) digits = w.nearest (positional (2 ^ k) digits) ↔
      ¬ w.LosesTie (2 ^ k) (positional (2 ^ k) digits) := by
  obtain ⟨j, dropped, same⟩ := @exists_digitwise_eq w _ _ below
  rw [same, dropped.losesTie_iff]
  generalize positional (2 ^ k) digits = n at dropped
  have parts := Nat.div_add_mod' n (2 ^ (k * j))
  rcases dropped.long with rfl | long
  · simp [Nat.mod_one]
  · have appended := nearest_append long (Nat.mod_lt n (Nat.two_pow_pos (k * j)))
    rwa [parts, eq_comm] at appended

/-- Leading digits of a short number are short, and short numbers are not half way. -/
theorem not_losesTie_of_short (short : w.Short n) : ¬ w.LosesTie (2 ^ k) n := by
  rintro ⟨i, ties, -⟩
  rw [← Nat.pow_mul] at ties
  exact not_tiesDown_of_short (short.div_two_pow _) ties

/-- A short number is not rounded at any of its digits. -/
theorem digitwise_of_short (below : ∀ d ∈ digits, d < 2 ^ k)
    (short : w.Short (positional (2 ^ k) digits)) :
    w.digitwise (2 ^ k) digits = positional (2 ^ k) digits := by
  rw [(digitwise_eq_nearest_iff below).2 (not_losesTie_of_short short), nearest_of_short short]

end Width

namespace Binary

variable {w : Width} {m n k : Nat} {digits : List Nat}

/-! ### Binary values -/

theorem ofNat_eq_ofRounded (n : Nat) :
    (ofNat n : Binary w) = ofRounded false (w.nearest n * w.one) := by
  rw [ofNat, ofRatio, Width.one, ← Width.nearest_mul_two_pow, Width.nearest]

theorem ofNat_nearest (n : Nat) : (ofNat (w.nearest n) : Binary w) = ofNat n := by
  rw [ofNat_eq_ofRounded, ofNat_eq_ofRounded n, Width.nearest_of_short (Width.short_nearest n)]

/-- Short numbers in range have a value of their own. -/
theorem ofNat_inj_of_short (hm : w.Short m) (hn : w.Short n) (belowM : m < 2 ^ w.topExponent)
    (belowN : n < 2 ^ w.topExponent) : (ofNat m : Binary w) = ofNat n ↔ m = n := by
  rw [ofNat_of_lt hm (Width.mul_one_lt_limit_iff.2 belowM),
    ofNat_of_lt hn (Width.mul_one_lt_limit_iff.2 belowN)]
  simp [Nat.ne_of_gt w.one_pos]

theorem isFinite_ofNat (below : 2 * n < 2 ^ w.topExponent) :
    (ofNat n : Binary w).isFinite = true := by
  have range := Nat.lt_of_le_of_lt (w.nearest_le n) below
  rw [← ofNat_nearest, ofNat_of_lt (Width.short_nearest n) (Width.mul_one_lt_limit_iff.2 range)]
  rfl

/-- Multiplied by the radix and increased by the next digit, a value is rounded once for every
    digit. -/
theorem foldl_digits_eq_ofNat (bits : k < w.precision) (below : ∀ d ∈ digits, d < 2 ^ k) :
    digits.foldl (fun value digit => value * ofNat (2 ^ k) + ofNat digit) (zero false) =
      (ofNat (w.digitwise (2 ^ k) digits) : Binary w) := by
  induction digits using List.reverseRecOn with
  | nil => exact ofNat_zero.symm
  | append_singleton digits d ih =>
      have last : d < 2 ^ k := below d (by simp)
      rw [List.foldl_append, ih fun d mem => below d (by simp [mem]),
        Width.digitwise_append_singleton, ofNat_nearest]
      exact ofNat_mul_add_digit bits last (Width.short_digitwise _ _)

end Binary

end Metrology
