/-
Module: Metrology.Proofs.UnitLaws
Layer: Proofs
Purpose: The laws of the unit algebra at every scale, where a factor is rounded after each
  operation. Products commute, the number one is neutral, and a unit over itself is one, bit for
  bit. Reciprocals and powers step by step need the two ways to a factor to agree: the exponents
  never stand in the way. They agree by construction for the reciprocal of a natural power, for
  powers up to the limit of repeated multiplication and behind each power of two past it; and for
  factors that are powers of two, since nothing is rounded there.
Imports: Metrology.Proofs.BinaryScales, Metrology.Proofs.LiteralOperands
Main exports: MeasureUnit.unit_identities, MeasureUnit.checkedMultiply_checkedRaise
-/
import Metrology.Proofs.BinaryScales
import Metrology.Proofs.LiteralOperands

namespace Metrology

namespace MeasureUnit

open Evaluator (metres)

variable {u v p q : MeasureUnit} {n : Int}

/-! ### Products and quotients -/

theorem checkedMultiply_one (valid : u.Valid) : u.checkedMultiply one = .ok u := by
  have product : u.checkedMultiply one = checkedCreate u.dimension (u.factor * .one) :=
    checkedMultiply_literal u .one
  rw [product, Binary.mul_one]
  exact checkedCreate_eq_ok_iff.2 ⟨rfl, rfl, valid⟩

theorem checkedDivide_one (valid : u.Valid) : u.checkedDivide one = .ok u := by
  have quotient : u.checkedDivide one = checkedCreate u.dimension (u.factor / .one) :=
    checkedDivide_literal u .one
  rw [quotient, Binary.div_one]
  exact checkedCreate_eq_ok_iff.2 ⟨rfl, rfl, valid⟩

theorem checkedDivide_self (valid : u.Valid) : u.checkedDivide u = .ok one := by
  rw [checkedDivide_eq]
  refine checkedUnit_eq_ok_iff.2 ⟨?_, (Binary.div_self valid).symm, valid_one⟩
  rw [exponent_one]
  funext b
  exact (Int.sub_self _).symm

/-! ### Powers -/

theorem checkedRaise_zero (u : MeasureUnit) : u.checkedRaise 0 = .ok one := by
  refine checkedRaise_eq_ok_iff.2 ⟨?_, (factorPower_zero _).symm, valid_one⟩
  rw [exponent_one]
  funext b
  exact (Int.mul_zero _).symm

theorem checkedRaise_one (valid : u.Valid) : u.checkedRaise 1 = .ok u := by
  refine checkedRaise_eq_ok_iff.2 ⟨?_, (factorPower_one _).symm, valid⟩
  funext b
  exact (Int.mul_one _).symm

/-- One over a power has the exponents of the opposite power: only the factor can be another. -/
theorem one_checkedDivide_eq (hp : u.checkedRaise n = .ok p) (hq : u.checkedRaise (-n) = .ok q) :
    one.checkedDivide p = checkedCreate q.dimension (.one / p.factor) := by
  obtain ⟨exponentP, -, -⟩ := checkedRaise_eq_ok_iff.1 hp
  obtain ⟨exponentQ, -, -⟩ := checkedRaise_eq_ok_iff.1 hq
  have opposite : q.dimension.exponent = fun b => -p.dimension.exponent b := by
    rw [exponentP, exponentQ]
    funext b
    exact Int.mul_neg _ _
  have quotient : one.checkedDivide p =
      checkedUnit (fun b => -p.dimension.exponent b) (.one / p.factor) :=
    literal_checkedDivide p .one
  rw [quotient, ← opposite, checkedUnit_exponent]

theorem one_checkedDivide_iff (hp : u.checkedRaise n = .ok p) (hq : u.checkedRaise (-n) = .ok q) :
    one.checkedDivide p = .ok q ↔ .one / p.factor = q.factor := by
  obtain ⟨-, -, valid⟩ := checkedRaise_eq_ok_iff.1 hq
  rw [one_checkedDivide_eq hp hq, checkedCreate_eq_ok_iff]
  simp only [valid, and_true, true_and, eq_comm]

/-- The unit times a power has the exponents of the next power: only the factor can be another. -/
theorem checkedMultiply_raise_eq (hp : u.checkedRaise n = .ok p)
    (hq : u.checkedRaise (n - 1) = .ok q) :
    u.checkedMultiply q = checkedCreate p.dimension (u.factor * q.factor) := by
  obtain ⟨exponentP, -, -⟩ := checkedRaise_eq_ok_iff.1 hp
  obtain ⟨exponentQ, -, -⟩ := checkedRaise_eq_ok_iff.1 hq
  have next : p.dimension.exponent =
      fun b => u.dimension.exponent b + q.dimension.exponent b := by
    rw [exponentP, exponentQ]
    funext b
    change u.dimension.exponent b * n = u.dimension.exponent b + u.dimension.exponent b * (n - 1)
    ring
  rw [checkedMultiply_eq, ← next, checkedUnit_exponent]

theorem checkedMultiply_raise_iff (hp : u.checkedRaise n = .ok p)
    (hq : u.checkedRaise (n - 1) = .ok q) :
    u.checkedMultiply q = .ok p ↔ u.factor * q.factor = p.factor := by
  obtain ⟨-, -, valid⟩ := checkedRaise_eq_ok_iff.1 hp
  rw [checkedMultiply_raise_eq hp hq, checkedCreate_eq_ok_iff]
  simp only [valid, and_true, true_and, eq_comm]

/-! ### Scales that are powers of two -/

/-- Of powers of two nothing is rounded, so opposite powers are reciprocals both ways. -/
theorem HasBinaryScale.one_checkedDivide (scale : u.HasBinaryScale)
    (hp : u.checkedRaise n = .ok p) (hq : u.checkedRaise (-n) = .ok q) :
    one.checkedDivide p = .ok q := by
  obtain ⟨g, hu⟩ := scale.exists_represents
  have factorP := (hu.power hp).factor
  have factorQ := (hu.power hq).factor
  have reciprocal : (2 : ℚ) ^ (-n • g).2 = 1 / 2 ^ (n • g).2 := by
    rw [neg_zsmul, Prod.snd_neg, zpow_neg, one_div]
  rw [reciprocal] at factorQ
  exact (one_checkedDivide_iff hp hq).2
    (Binary.denotes_one.div_eq factorP factorQ (zpow_ne_zero _ two_ne_zero))

theorem HasBinaryScale.checkedMultiply_raise (scale : u.HasBinaryScale)
    (hp : u.checkedRaise n = .ok p) (hq : u.checkedRaise (n - 1) = .ok q) :
    u.checkedMultiply q = .ok p := by
  obtain ⟨g, hu⟩ := scale.exists_represents
  have factorP := (hu.power hp).factor
  have factorQ := (hu.power hq).factor
  have next : n • g = g + (n - 1) • g := by
    rw [← one_add_zsmul, add_sub_cancel]
  rw [next, Prod.snd_add, zpow_add₀ two_ne_zero] at factorP
  exact (checkedMultiply_raise_iff hp hq).2 (hu.factor.mul_eq factorQ factorP)

/-! ### The laws at every scale -/

/-- The laws of products, quotients and reciprocals, bit for bit. Only the reciprocal of a negative
    power may miss: it is the reciprocal of a rounded reciprocal. -/
theorem unit_identities (valid : u.Valid) :
    u.checkedMultiply v = v.checkedMultiply u ∧
    u.checkedMultiply one = .ok u ∧ one.checkedMultiply u = .ok u ∧ u.checkedDivide one = .ok u ∧
    u.checkedDivide u = .ok one ∧ u.checkedRaise 0 = .ok one ∧ u.checkedRaise 1 = .ok u ∧
    ∀ n p q, u.checkedRaise n = .ok p → u.checkedRaise (-n) = .ok q →
      one.checkedDivide p = checkedCreate q.dimension (.one / p.factor) ∧
      (0 ≤ n → one.checkedDivide p = .ok q) ∧
      (n < 0 → (one.checkedDivide p = .ok q ↔ .one / (.one / q.factor) = q.factor)) ∧
      (u.HasBinaryScale → one.checkedDivide p = .ok q) := by
  refine ⟨checkedMultiply_comm u v, checkedMultiply_one valid, ?_, checkedDivide_one valid,
    checkedDivide_self valid, checkedRaise_zero u, checkedRaise_one valid, ?_⟩
  · rw [checkedMultiply_comm]
    exact checkedMultiply_one valid
  · intro n p q hp hq
    obtain ⟨-, factorP, -⟩ := checkedRaise_eq_ok_iff.1 hp
    obtain ⟨-, factorQ, -⟩ := checkedRaise_eq_ok_iff.1 hq
    refine ⟨one_checkedDivide_eq hp hq, fun natural => ?_, fun negative => ?_, fun scale =>
      scale.one_checkedDivide hp hq⟩
    · rw [one_checkedDivide_iff hp hq, factorP, factorQ, factorPower_neg _ natural]
    · have reciprocal : p.factor = .one / q.factor := by
        have opposite := factorPower_neg u.factor (n := -n) (by omega)
        rwa [Int.neg_neg, ← factorP, ← factorQ] at opposite
      rw [one_checkedDivide_iff hp hq, reciprocal]

/-- Units of ten metres and three seconds, and the opposite squares of the first. -/
theorem unit_identities_ten_metres :
    let u := metres (.ofNat 10)
    let square : MeasureUnit := ⟨.ofList 2 0 0 0 0, .ofNat 100⟩
    let perSquare : MeasureUnit := ⟨.ofList (-2) 0 0 0 0, .one / .ofNat 100⟩
    u.Valid ∧
      u.checkedMultiply ⟨.base .time, .ofNat 3⟩ = checkedMultiply ⟨.base .time, .ofNat 3⟩ u ∧
      u.checkedDivide u = .ok one ∧ u.checkedRaise 0 = .ok one ∧
      u.checkedRaise 2 = .ok square ∧ u.checkedRaise (-2) = .ok perSquare ∧
      one.checkedDivide square = .ok perSquare ∧ one.checkedDivide perSquare = .ok square := by
  intro u square perSquare
  have valid : u.Valid := by decide +kernel
  have power : u.checkedRaise 2 = .ok square := by decide +kernel
  have reciprocal : u.checkedRaise (-2) = .ok perSquare := by decide +kernel
  obtain ⟨commutes, -, -, -, self, zero, -, reciprocals⟩ := unit_identities valid
  obtain ⟨-, natural, -, -⟩ := reciprocals 2 square perSquare power reciprocal
  obtain ⟨-, -, negative, -⟩ := reciprocals (-2) perSquare square reciprocal power
  have twice : .one / (.one / square.factor) = square.factor := by decide +kernel
  exact ⟨valid, commutes, self, zero, power, reciprocal, natural (by decide),
    (negative (by decide)).2 twice⟩

/-- The reciprocal of 49 is rounded, and the reciprocal of that is not 49 again. -/
theorem reciprocal_of_reciprocal_differs :
    (metres (.ofNat 49)).Valid ∧
      (metres (.ofNat 49)).checkedRaise (-1) = .ok ⟨.ofList (-1) 0 0 0 0, .one / .ofNat 49⟩ ∧
      (metres (.ofNat 49)).checkedRaise (- -1) = .ok (metres (.ofNat 49)) ∧
      one.checkedDivide ⟨.ofList (-1) 0 0 0 0, .one / .ofNat 49⟩ =
        .ok (metres (.one / (.one / .ofNat 49))) ∧
      (metres (.ofNat 49)).sameAs (metres (.one / (.one / .ofNat 49))) = false := by
  decide +kernel

/-- A power is the unit times the power before it exactly when this holds of their factors; so it
    does where the two powers are computed alike, and where nothing is rounded. -/
theorem checkedMultiply_checkedRaise (positive : 1 ≤ n) (hp : u.checkedRaise n = .ok p)
    (hq : u.checkedRaise (n - 1) = .ok q) :
    u.checkedMultiply q = checkedCreate p.dimension (u.factor * q.factor) ∧
    (u.checkedMultiply q = .ok p ↔ u.factor * q.factor = p.factor) ∧
    (n ≤ steppedPowers → u.checkedMultiply q = .ok p) ∧
    (∀ k : Nat, steppedPowers < 2 ^ k → n = (2 ^ k + 1 : Nat) → u.checkedMultiply q = .ok p) ∧
    (u.HasBinaryScale → u.checkedMultiply q = .ok p) := by
  obtain ⟨-, factorP, -⟩ := checkedRaise_eq_ok_iff.1 hp
  obtain ⟨-, factorQ, -⟩ := checkedRaise_eq_ok_iff.1 hq
  have iff := checkedMultiply_raise_iff hp hq
  -- the number before `n` as a natural one, for the two ways to multiply a power up
  obtain ⟨m, rfl⟩ : ∃ m : Nat, n = (m + 1 : Nat) := ⟨(n - 1).toNat, by omega⟩
  have previous : ((m + 1 : Nat) - 1 : Int) = m := by omega
  rw [previous] at factorQ
  refine ⟨checkedMultiply_raise_eq hp hq, iff, fun small => ?_, fun k large same => ?_,
    fun scale => scale.checkedMultiply_raise hp hq⟩
  · rw [iff, factorP, factorQ, factorPower_succ _ (by omega)]
  · obtain rfl : m = 2 ^ k := by omega
    rw [iff, factorP, factorQ, factorPower_two_pow_succ _ large]

/-- A power by repeated multiplication, one by squaring behind a power of two, and one of a power of
    two by squaring. -/
theorem checkedMultiply_checkedRaise_three :
    (metres (.ofNat 3)).checkedMultiply ⟨.ofList 2 0 0 0 0, .ofNat 9⟩ =
        .ok ⟨.ofList 3 0 0 0 0, .ofNat 27⟩ ∧
      checkedMultiply ⟨.dimensionless, .ofNat 3⟩
          ⟨.dimensionless, factorPower (.ofNat 3) 256⟩ =
        .ok ⟨.dimensionless, factorPower (.ofNat 3) 257⟩ ∧
      (ofBit .dimensionless 1072).checkedMultiply (ofBit .dimensionless 676) =
        .ok (ofBit .dimensionless 674) := by
  have cube : (metres (.ofNat 3)).checkedRaise 3 = .ok ⟨.ofList 3 0 0 0 0, .ofNat 27⟩ := by
    decide +kernel
  have square : (metres (.ofNat 3)).checkedRaise (3 - 1) = .ok ⟨.ofList 2 0 0 0 0, .ofNat 9⟩ := by
    decide +kernel
  obtain ⟨-, -, stepped, -⟩ := checkedMultiply_checkedRaise (by decide) cube square
  have behind : checkedRaise ⟨.dimensionless, .ofNat 3⟩ 257 =
      .ok ⟨.dimensionless, factorPower (.ofNat 3) 257⟩ := by
    decide +kernel
  have single : checkedRaise ⟨.dimensionless, .ofNat 3⟩ (257 - 1) =
      .ok ⟨.dimensionless, factorPower (.ofNat 3) 256⟩ := by
    decide +kernel
  obtain ⟨-, -, -, squared, -⟩ := checkedMultiply_checkedRaise (by decide) behind single
  have scale : (ofBit .dimensionless 1072).HasBinaryScale := hasBinaryScale_ofBit _ 1072 (by decide)
  have power : (ofBit .dimensionless 1072).checkedRaise 200 = .ok (ofBit .dimensionless 674) := by
    decide +kernel
  have before : (ofBit .dimensionless 1072).checkedRaise (200 - 1) =
      .ok (ofBit .dimensionless 676) := by
    decide +kernel
  obtain ⟨-, -, -, -, unrounded⟩ := checkedMultiply_checkedRaise (by decide) power before
  exact ⟨stepped (by decide), squared 8 (by decide) (by decide), unrounded scale⟩

/-- Past the limit the squares are rounded before the factor comes in, and the last bit shows it. -/
theorem power_by_squaring_differs :
    Valid ⟨.dimensionless, .ofNat 3⟩ ∧
      checkedRaise ⟨.dimensionless, .ofNat 3⟩ 131 =
        .ok ⟨.dimensionless, factorPower (.ofNat 3) 131⟩ ∧
      checkedRaise ⟨.dimensionless, .ofNat 3⟩ (131 - 1) =
        .ok ⟨.dimensionless, factorPower (.ofNat 3) 130⟩ ∧
      checkedMultiply ⟨.dimensionless, .ofNat 3⟩ ⟨.dimensionless, factorPower (.ofNat 3) 130⟩ =
        .ok ⟨.dimensionless, .ofNat 3 * factorPower (.ofNat 3) 130⟩ ∧
      sameAs ⟨.dimensionless, .ofNat 3 * factorPower (.ofNat 3) 130⟩
        ⟨.dimensionless, factorPower (.ofNat 3) 131⟩ = false := by
  decide +kernel

end MeasureUnit

end Metrology
