/-
Module: Metrology.Proofs.ConversionRange
Layer: Proofs
Purpose: Where the range of a format is left in a conversion. The ratio of the factors is formed
  first, in double precision, then narrowed, and the value is multiplied by what comes out. If the
  exact result is well in range only the ratio can overflow: while it is finite so is the result,
  and zero stays zero; if it is infinite, zero becomes no number and every other value infinite.
Imports: Metrology.Proofs.ConversionAccuracy, Metrology.Quantity
Main exports: Width.le_largestUnits, Binary.largest, Binary.abs_toRat_le_largest,
  Binary.ScaledTo, Binary.IsUnsigned.scaledTo, ConversionInRange, ConversionInRange.isFinite_mul,
  ConversionInRange.scaledTo, ConversionInRange.isFinite_ratio, conversion_in_range,
  zero_converts_to_nan
-/
import Metrology.Proofs.ConversionAccuracy
import Metrology.Quantity

namespace Metrology

/-! ### The largest finite value -/

namespace Width

variable {w : Width} {n : Nat}

/-- The largest finite value in units: all bits of the precision, at the last shift. -/
def largestUnits (w : Width) : Nat := (2 ^ w.precision - 1) * 2 ^ w.maxShift

theorem holds_largestUnits (w : Width) : w.Holds w.largestUnits :=
  holds_mul_two_pow (Nat.sub_lt (Nat.two_pow_pos _) Nat.one_pos) (Nat.le_refl _)

theorem le_largestUnits (holds : w.Holds n) : n ≤ w.largestUnits := by
  obtain ⟨c, multiple⟩ := Nat.dvd_of_mod_eq_zero holds.2
  have bits : 2 ^ w.shiftOf n * c < 2 ^ w.shiftOf n * 2 ^ w.precision := by
    rw [← multiple, Nat.mul_comm]
    exact w.lt_two_pow_shiftOf n
  have digits : c ≤ 2 ^ w.precision - 1 :=
    Nat.le_sub_one_of_lt (Nat.lt_of_mul_lt_mul_left bits)
  have shift : w.shiftOf n ≤ w.maxShift := by
    by_cases zero : n = 0
    · subst zero
      cases w <;> decide
    · have length := (Nat.log2_lt zero).2 holds.1
      unfold shiftOf
      omega
  calc n = c * 2 ^ w.shiftOf n := by rw [Nat.mul_comm, ← multiple]
    _ ≤ w.largestUnits := Nat.mul_le_mul digits (Nat.pow_le_pow_right Nat.two_pos shift)

end Width

namespace Binary

variable {w : Width} {value ratio : Binary w}

/-- The largest finite value. -/
def largest : Binary w := .finite false w.largestUnits w.holds_largestUnits

theorem toRat_largest : (largest : Binary w).toRat = w.largestUnits / w.one := by
  simp [largest, toRat, signFactor]

/-- No finite value has a larger magnitude. -/
theorem abs_toRat_le_largest (x : Binary w) : |x.toRat| ≤ (largest : Binary w).toRat := by
  have unit := one_pos_rat w
  rw [toRat_largest]
  cases x with
  | nan | infinite =>
      simp only [toRat, abs_zero]
      positivity
  | finite s n holds =>
      have nonneg : (0 : ℚ) ≤ n / w.one := by positivity
      rw [toRat, abs_signFactor_mul, abs_of_nonneg nonneg]
      gcongr
      exact Width.le_largestUnits holds

theorem toRat_largest_le (w : Width) : (largest : Binary w).toRat ≤ 2 ^ w.topExponent := by
  have below : (w.largestUnits : ℚ) ≤ w.limit := by
    exact_mod_cast Nat.le_of_lt w.holds_largestUnits.1
  have limit : (w.limit : ℚ) = 2 ^ w.topExponent * w.one := by exact_mod_cast w.limit_eq
  rw [toRat_largest, div_le_iff₀ (one_pos_rat w), ← limit]
  exact below

/-! ### Scaling by a number without a sign -/

/-- Finite or infinite, and not below zero. -/
def IsUnsigned (x : Binary w) : Prop :=
  x = .infinite false ∨ ∃ n holds, x = .finite false n holds

theorem isUnsigned_ofRatio (num den : Nat) : (ofRatio false num den : Binary w).IsUnsigned := by
  unfold ofRatio ofRounded
  split
  · next holds => exact .inr ⟨_, holds, rfl⟩
  · exact .inl rfl

theorem IsUnsigned.convert {v : Width} {x : Binary v} (h : x.IsUnsigned) :
    (x.convert w).IsUnsigned := by
  rcases h with rfl | ⟨n, holds, rfl⟩
  · exact .inl rfl
  · exact isUnsigned_ofRatio _ _

theorem isUnsigned_div {x y : Binary w} (hx : x.isPositiveFinite = true)
    (hy : y.isPositiveFinite = true) : (x / y).IsUnsigned := by
  cases x with
  | nan | infinite => cases hx
  | finite s m holdsM =>
      cases y with
      | nan | infinite => cases hy
      | finite t n holdsN =>
          simp only [isPositiveFinite, Bool.and_eq_true, Bool.not_eq_true', bne_iff_ne] at hx hy
          obtain ⟨rfl, -⟩ := hx
          obtain ⟨rfl, nonzero⟩ := hy
          change (div (.finite false m holdsM) (.finite false n holdsN)).IsUnsigned
          simp only [div, nonzero, if_false]
          exact isUnsigned_ofRatio _ _

/-- A value scaled by a ratio is finite exactly if the ratio is; zero stays as it is then, and it is
    what an infinite ratio turns into no number. -/
structure ScaledTo (value ratio result : Binary w) : Prop where
  finite_iff : result.isFinite = true ↔ ratio.isFinite = true
  zero : ratio.isFinite = true → value.toRat = 0 → result = value
  nan_iff : result = .nan ↔ ratio.isFinite = false ∧ value.toRat = 0

/-- A product that does not overflow with a finite ratio is scaled by the ratio. -/
theorem IsUnsigned.scaledTo (unsigned : ratio.IsUnsigned) (finite : value.isFinite = true)
    (inRange : ratio.isFinite = true → (value * ratio).isFinite = true) :
    value.ScaledTo ratio (value * ratio) := by
  cases value with
  | nan | infinite => cases finite
  | finite s m holdsM =>
      rcases unsigned with rfl | ⟨n, holdsN, rfl⟩
      · have product : (.finite s m holdsM : Binary w) * .infinite false =
            if m = 0 then .nan else .infinite s := by
          change mul (.finite s m holdsM) (.infinite false) = _
          simp only [mul, Bool.xor_false]
        rw [product]
        refine ⟨?_, fun h => Bool.noConfusion h, ?_⟩
        · split <;> simp [isFinite]
        · rw [toRat_eq_zero_iff]
          split <;> simp_all [isFinite]
      · have result := inRange rfl
        refine ⟨iff_of_true result rfl, fun _ zero => ?_, ?_⟩
        · obtain rfl := toRat_eq_zero_iff.1 zero
          change mul (.finite s 0 holdsM) (.finite false n holdsN) = _
          have held := ofRatio_of_holds s w.holds_zero w.one_pos
          rw [Nat.zero_mul] at held
          simp only [mul, Bool.xor_false, Nat.zero_mul, held]
        · constructor
          · intro none
            rw [none] at result
            cases result
          · rintro ⟨infinite, -⟩
            cases infinite

theorem isFinite_of_convert {v : Width} {x : Binary v} (h : (x.convert w).isFinite = true) :
    x.isFinite = true := by
  cases x with
  | nan | infinite => cases h
  | finite s n holds => rfl

end Binary

/-! ### Conversions -/

/-- Positive finite factors of one dimension, and a finite value whose exact conversion has at most
    half the magnitude of the largest finite one. -/
structure ConversionInRange {w : Width} (value : Binary w) (source target : MeasureUnit) :
    Prop where
  source_valid : source.Valid
  target_valid : target.Valid
  compatible : source.isCompatible target = true
  finite : value.isFinite = true
  half : |value.toRat * source.factor.toRat / target.factor.toRat| ≤
    (Binary.largest : Binary w).toRat / 2

namespace ConversionInRange

variable {w : Width} {value : Binary w} {source target : MeasureUnit}

/-- The narrowed ratio is not far from the exact one, unless it overflows. -/
theorem abs_ratio_le (h : ConversionInRange value source target)
    (finite : (source.factor / target.factor).isFinite = true) :
    |((source.factor / target.factor).convert w).toRat| ≤
      10201 / 10000 * |source.factor.toRat / target.factor.toRat| + 201 / 10000 := by
  have quotient :=
    (MeasureUnit.factor_ratio_rounds h.source_valid h.target_valid).abs_toRat_le_of_small
  have narrowed := (@Binary.convert_rounds w _ _ finite).abs_toRat_le_of_small
  linarith

/-- While the ratio is finite, so is the result. -/
theorem isFinite_mul (h : ConversionInRange value source target)
    (finite : ((source.factor / target.factor).convert w).isFinite = true) :
    (value * (source.factor / target.factor).convert w).isFinite = true := by
  have ratio := h.abs_ratio_le (Binary.isFinite_of_convert finite)
  have half := h.half
  rw [mul_div_assoc, abs_mul] at half
  refine (Binary.mul_rounds h.finite finite).isFinite ?_
  rw [abs_mul]
  have magnitude := Binary.abs_toRat_le_largest value
  have top := Binary.toRat_largest_le w
  have positive : (0 : ℚ) ≤ 2 ^ w.topExponent := by positivity
  calc |value.toRat| * |((source.factor / target.factor).convert w).toRat|
      ≤ |value.toRat| *
          (10201 / 10000 * |source.factor.toRat / target.factor.toRat| + 201 / 10000) :=
        mul_le_mul_of_nonneg_left ratio (abs_nonneg _)
    _ = 10201 / 10000 * (|value.toRat| * |source.factor.toRat / target.factor.toRat|) +
          201 / 10000 * |value.toRat| := by ring
    _ ≤ 3 / 4 * 2 ^ w.topExponent := by linarith

theorem scaledTo (h : ConversionInRange value source target) :
    value.ScaledTo ((source.factor / target.factor).convert w)
      (value * (source.factor / target.factor).convert w) :=
  (Binary.isUnsigned_div h.source_valid h.target_valid).convert.scaledTo h.finite h.isFinite_mul

/-- The ratio is finite if its exact value is well in range. -/
theorem isFinite_ratio (h : ConversionInRange value source target)
    (inRange : |source.factor.toRat / target.factor.toRat| ≤
      (Binary.largest : Binary w).toRat / 2) :
    ((source.factor / target.factor).convert w).isFinite = true := by
  have top := Binary.toRat_largest_le w
  have rounds := MeasureUnit.factor_ratio_rounds h.source_valid h.target_valid
  have widest : (2 : ℚ) ^ w.topExponent ≤ 2 ^ Width.double.topExponent :=
    pow_le_pow_right₀ one_le_two (by cases w <;> decide)
  have positive : (1 : ℚ) ≤ 2 ^ w.topExponent := one_le_pow₀ one_le_two
  have finite : (source.factor / target.factor).isFinite = true := by
    refine rounds.isFinite ?_
    linarith
  refine (Binary.convert_rounds finite).isFinite ?_
  have quotient := rounds.abs_toRat_le_of_small
  linarith

end ConversionInRange

/-- Conversions whose exact result is at most half the largest finite value, in either precision:
    there is always a result, in the target unit, and only an infinite ratio spoils it. -/
theorem conversion_in_range :
    (∀ (w : Width) (q : Quantity (Binary w)) (target : MeasureUnit),
      ConversionInRange q.value q.unit target →
        ∃ ratio x, q.unit.conversionFactor target = .ok ratio ∧
          q.convertTo target = .ok ⟨x, target⟩ ∧ q.value.ScaledTo (ratio.convert w) x ∧
          (|q.unit.factor.toRat / target.factor.toRat| ≤ (Binary.largest : Binary w).toRat / 2 →
            x.isFinite = true)) ∧
      ∀ (v : Double) (source target : MeasureUnit), ConversionInRange v source target →
        ∃ ratio x, source.conversionFactor target = .ok ratio ∧
          convertValue v source target = .ok x ∧ v.ScaledTo ratio x ∧
          (|source.factor.toRat / target.factor.toRat| ≤ (Binary.largest : Double).toRat / 2 →
            x.isFinite = true) := by
  constructor
  · intro w q target h
    have ratio := MeasureUnit.conversionFactor_eq h.compatible
    refine ⟨_, _, ratio, ?_, h.scaledTo, fun inRange =>
      h.scaledTo.finite_iff.2 (h.isFinite_ratio inRange)⟩
    rw [Quantity.convertTo, ratio]
    rfl
  · intro v source target h
    have scaled := h.scaledTo
    rw [Binary.convert_self] at scaled
    refine ⟨_, _, MeasureUnit.conversionFactor_eq h.compatible, convertValue_eq h.compatible v,
      scaled, fun inRange => scaled.finite_iff.2 ?_⟩
    have finite := h.isFinite_ratio inRange
    rwa [Binary.convert_self] at finite

/-- Twice as many half metres as single precision can hold metres, almost; and no kilometres at all
    are no metres, with their sign. -/
theorem conversion_in_range_metres :
    let half : MeasureUnit := ⟨.base .length, Decimal.toBinary .double false ⟨5, -1⟩⟩
    let metre : MeasureUnit := .base (.base .length)
    let kilometre : MeasureUnit := ⟨.base .length, .ofNat 1000⟩
    let many : Single := Decimal.toBinary .single false ⟨34, 37⟩
    (∃ x, (⟨many, half⟩ : Quantity Single).convertTo metre = .ok ⟨x, metre⟩ ∧ x.isFinite = true) ∧
      convertValue (.zero true) kilometre metre = .ok (.zero true) := by
  intro half metre kilometre many
  have inRange : ConversionInRange many half metre :=
    ⟨by decide +kernel, by decide +kernel, by decide +kernel, by decide +kernel, by decide +kernel⟩
  have zeroInRange : ConversionInRange (.zero true : Double) kilometre metre :=
    ⟨by decide +kernel, by decide +kernel, by decide +kernel, by decide +kernel, by decide +kernel⟩
  have halfRatio : |half.factor.toRat / metre.factor.toRat| ≤
      (Binary.largest : Single).toRat / 2 := by decide +kernel
  have thousand : |kilometre.factor.toRat / metre.factor.toRat| ≤
      (Binary.largest : Double).toRat / 2 := by decide +kernel
  have zero : (.zero true : Double).toRat = 0 := by decide +kernel
  clear_value half metre kilometre many
  constructor
  · obtain ⟨ratio, x, -, converted, -, finite⟩ :=
      conversion_in_range.1 .single ⟨many, half⟩ metre inRange
    exact ⟨x, converted, finite halfRatio⟩
  · obtain ⟨ratio, x, -, converted, scaled, finite⟩ :=
      conversion_in_range.2 _ kilometre metre zeroInRange
    rw [converted, scaled.zero (scaled.finite_iff.1 (finite thousand)) zero]

/-- The ratio of two factors far apart overflows, and zero, times infinity, is no number. -/
theorem zero_converts_to_nan :
    let large : MeasureUnit := ⟨.base .length, Decimal.toBinary .double false ⟨1, 300⟩⟩
    let small : MeasureUnit := ⟨.base .length, Decimal.toBinary .double false ⟨1, -300⟩⟩
    ConversionInRange (.zero false : Double) large small ∧
      convertValue (.zero false) large small = .ok .nan ∧
      (⟨.zero false, large⟩ : Quantity Double).convertTo small = .ok ⟨.nan, small⟩ := by
  intro large small
  have inRange : ConversionInRange (.zero false : Double) large small :=
    ⟨by decide +kernel, by decide +kernel, by decide +kernel, by decide +kernel, by decide +kernel⟩
  have product : (.zero false : Double) * (large.factor / small.factor) = .nan := by
    decide +kernel
  clear_value large small
  refine ⟨inRange, ?_, ?_⟩
  · rw [convertValue_eq inRange.compatible, product]
  · rw [Quantity.convertTo, MeasureUnit.conversionFactor_eq inRange.compatible]
    change Except.ok (⟨.zero false * (large.factor / small.factor).convert .double, small⟩ :
      Quantity Double) = _
    rw [Binary.convert_self, product]

end Metrology
