/-
Module: Metrology.Proofs.DimensionLaws
Layer: Proofs
Purpose: Dimension arithmetic as exact integer arithmetic with a range check. A checked result is
  settled by the exact vector: it is there exactly when all five integers can be represented, and
  then it holds them. So laws of integers are laws of dimensions, as far as the operands on both
  sides exist: a check on the way can take a result away, but it cannot make another one of it.
  Under a contract an operation faults exactly where the checked form has no result.
Imports: Mathlib.Logic.Basic, Metrology.Proofs.ContractAgreement
Main exports: Dimension.Computes, Dimension.Computes.unique, Dimension.Demands,
  Dimension.arithmetic_exact
-/
import Mathlib.Logic.Basic
import Metrology.Proofs.ContractAgreement

namespace Metrology

namespace Dimension

/-! ### Checked results -/

/-- A checked result is that of integer arithmetic: it exists exactly when the exact vector is in
    range, and it has that vector. -/
structure Computes (result : Option Dimension) (v : ExponentVector) : Prop where
  isSome_iff : result.isSome = true ↔ v.InRange
  exponent_eq : ∀ d, result = some d → d.exponent = v

section Results

variable {v : ExponentVector} {result other : Option Dimension}

theorem computes_ofExponents? (v : ExponentVector) : Computes (ofExponents? v) v where
  isSome_iff := by
    rw [← not_iff_not, ← ofExponents?_eq_none_iff, Bool.not_eq_true, Option.isSome_eq_false_iff,
      Option.isNone_iff_eq_none]
  exponent_eq d found := funext (ofExponents?_eq_some_iff.1 found)

/-- The exact vector settles the result. -/
theorem Computes.unique (h : Computes result v) (h' : Computes other v) : result = other := by
  have together : result.isSome = true ↔ other.isSome = true :=
    h.isSome_iff.trans h'.isSome_iff.symm
  cases result with
  | none =>
      cases other with
      | none => rfl
      | some d => exact absurd (together.2 rfl) (by simp)
  | some c =>
      cases other with
      | none => exact absurd (together.1 rfl) (by simp)
      | some d =>
          have same : c = d := by
            apply ext_exponent
            intro q
            rw [h.exponent_eq c rfl, h'.exponent_eq d rfl]
          rw [same]

/-- A dimension that has the exact vector is the result. -/
theorem Computes.eq_some {d : Dimension} (h : Computes result d.exponent) : result = some d := by
  have stored : Computes (some d) d.exponent :=
    ⟨by simpa using d.inRange_exponent, by rintro c ⟨⟩; rfl⟩
  exact h.unique stored

end Results

section Operations

variable {a b c ab bc p q r : Dimension} {m n : Int}

theorem computes_mul? (a b : Dimension) :
    Computes (a.mul? b) fun q => a.exponent q + b.exponent q :=
  computes_ofExponents? _

theorem computes_div? (a b : Dimension) :
    Computes (a.div? b) fun q => a.exponent q - b.exponent q :=
  computes_ofExponents? _

theorem computes_pow? (a : Dimension) (n : Int) :
    Computes (a.pow? n) fun q => a.exponent q * n := by
  rw [pow?_eq]
  exact computes_ofExponents? _

/-- The reciprocal negates the exponents. -/
theorem computes_reciprocal (a : Dimension) :
    Computes (dimensionless.div? a) fun q => -a.exponent q := by
  have negated : (fun q => dimensionless.exponent q - a.exponent q) = fun q => -a.exponent q := by
    funext q
    cases q <;> exact Int.zero_sub _
  rw [← negated]
  exact computes_div? _ _

/-! ### Laws -/

theorem mul?_comm (a b : Dimension) : a.mul? b = b.mul? a := by
  have swapped := computes_mul? b a
  simp only [Int.add_comm (b.exponent _)] at swapped
  exact (computes_mul? a b).unique swapped

/-- Where both inner products exist, the outer ones are the same, and exist together. -/
theorem mul?_assoc (left : a.mul? b = some ab) (right : b.mul? c = some bc) :
    ab.mul? c = a.mul? bc := by
  have outer := computes_mul? ab c
  have other := computes_mul? a bc
  rw [(computes_mul? a b).exponent_eq _ left] at outer
  rw [(computes_mul? b c).exponent_eq _ right] at other
  simp only [Int.add_assoc] at outer
  exact outer.unique other

theorem div?_of_mul? (product : a.mul? b = some ab) : ab.div? b = some a := by
  have quotient := computes_div? ab b
  rw [(computes_mul? a b).exponent_eq _ product] at quotient
  simp only [Int.add_sub_cancel] at quotient
  exact quotient.eq_some

theorem reciprocal_reciprocal (once : dimensionless.div? a = some r) :
    dimensionless.div? r = some a := by
  have twice := computes_reciprocal r
  rw [(computes_reciprocal a).exponent_eq _ once] at twice
  simp only [Int.neg_neg] at twice
  exact twice.eq_some

theorem pow?_add (hp : a.pow? m = some p) (hq : a.pow? n = some q) :
    p.mul? q = a.pow? (m + n) := by
  have product := computes_mul? p q
  rw [(computes_pow? a m).exponent_eq _ hp, (computes_pow? a n).exponent_eq _ hq] at product
  simp only [← Int.mul_add] at product
  exact product.unique (computes_pow? a (m + n))

theorem pow?_mul (hp : a.pow? m = some p) : p.pow? n = a.pow? (m * n) := by
  have power := computes_pow? p n
  rw [(computes_pow? a m).exponent_eq _ hp] at power
  simp only [Int.mul_assoc] at power
  exact power.unique (computes_pow? a (m * n))

end Operations

/-! ### Under a contract -/

/-- An operation under a contract has the checked result, and faults where there is none. -/
structure Demands (demanding : Except Fault Dimension) (checked : Option Dimension) : Prop where
  results : ∀ d, demanding = .ok d ↔ checked = some d
  faults : ∀ f, demanding = .error f ↔
    checked = none ∧ f.message = "dimension exponent out of range"

theorem demands_demand (checked : Option Dimension) : Demands (demand checked) checked := by
  cases checked with
  | none =>
      refine ⟨by simp [demand], fun f => ?_⟩
      rw [Fault.message_eq_iff]
      simp [demand, eq_comm]
  | some d => exact ⟨by simp [demand], by simp [demand]⟩

/-- Products, quotients and powers of dimensions are exact: each result exists exactly when its five
    integers are in range, and holds them. The laws of integers hold wherever both sides have their
    operands, and the operations under a contract fault exactly where the checked ones fail. -/
theorem arithmetic_exact :
    (∀ a b : Dimension, Computes (a.mul? b) fun q => a.exponent q + b.exponent q) ∧
    (∀ a b : Dimension, Computes (a.div? b) fun q => a.exponent q - b.exponent q) ∧
    (∀ (a : Dimension) (n : Int), Computes (a.pow? n) fun q => a.exponent q * n) ∧
    (∀ a b : Dimension, a.mul? b = b.mul? a) ∧
    (∀ a b c ab bc : Dimension, a.mul? b = some ab → b.mul? c = some bc →
      ab.mul? c = a.mul? bc) ∧
    (∀ a b ab : Dimension, a.mul? b = some ab → ab.div? b = some a) ∧
    (∀ a r : Dimension, a.recip = .ok r → r.recip = .ok a) ∧
    (∀ (a p q : Dimension) (m n : Int), a.pow? m = some p → a.pow? n = some q →
      p.mul? q = a.pow? (m + n)) ∧
    (∀ (a p : Dimension) (m n : Int), a.pow? m = some p → p.pow? n = a.pow? (m * n)) ∧
    (∀ a b : Dimension, Demands (a.mul b) (a.mul? b)) ∧
    (∀ a b : Dimension, Demands (a.div b) (a.div? b)) ∧
    (∀ a : Dimension, Demands a.recip (dimensionless.div? a)) ∧
    ∀ (a : Dimension) (n : Int), Demands (a.pow n) (a.pow? n) := by
  have reciprocal : ∀ a : Dimension, Demands a.recip (dimensionless.div? a) := by
    intro a
    exact demands_demand _
  refine ⟨computes_mul?, computes_div?, computes_pow?, mul?_comm, ?_, ?_, ?_, ?_, ?_, ?_, ?_,
    reciprocal, ?_⟩
  · intro a b c ab bc left right
    exact mul?_assoc left right
  · intro a b ab product
    exact div?_of_mul? product
  · intro a r once
    exact ((reciprocal r).results a).2 (reciprocal_reciprocal (((reciprocal a).results r).1 once))
  · intro a p q m n hp hq
    exact pow?_add hp hq
  · intro a p m n hp
    exact pow?_mul hp
  · intro a b
    exact demands_demand _
  · intro a b
    exact demands_demand _
  · intro a n
    exact demands_demand _

/-- Exponents at both ends of the range, with products of powers that exist and that do not. -/
theorem arithmetic_exact_bounds :
    let least := ofList (-128) 0 0 0 0
    let greatest := ofList 127 (-1) 0 0 0
    least.mul? greatest = some (ofList (-1) (-1) 0 0 0) ∧
      greatest.mul? (base .time) = some (ofList 127 0 0 0 0) ∧
      (ofList (-1) (-1) 0 0 0).mul? (base .time) = least.mul? (ofList 127 0 0 0 0) ∧
      (ofList (-1) (-1) 0 0 0).div? greatest = some least ∧
      greatest.recip = .ok (ofList (-127) 1 0 0 0) ∧
      (ofList (-127) 1 0 0 0).recip = .ok greatest ∧
      (base .length).pow? 64 = some (ofList 64 0 0 0 0) ∧
      (ofList 64 0 0 0 0).mul? (ofList 64 0 0 0 0) = (base .length).pow? (64 + 64) ∧
      (ofList 64 0 0 0 0).pow? (-2) = (base .length).pow? (64 * -2) ∧
      least.pow? (-2147483648) = none ∧ least.recip = .error .exponentRange := by
  intro least greatest
  obtain ⟨-, -, powers, -, assoc, cancel, reciprocal, sums, products, -, -, recips, -⟩ :=
    arithmetic_exact
  have inner : least.mul? greatest = some (ofList (-1) (-1) 0 0 0) := by decide +kernel
  have other : greatest.mul? (base .time) = some (ofList 127 0 0 0 0) := by decide +kernel
  have once : greatest.recip = .ok (ofList (-127) 1 0 0 0) := by decide +kernel
  have power : (base .length).pow? 64 = some (ofList 64 0 0 0 0) := by decide +kernel
  have outside : least.pow? (-2147483648) = none := by
    have missing := mt (powers least (-2147483648)).isSome_iff.1 fun inRange =>
      absurd (inRange .length).2 (by decide)
    simpa using missing
  have lost : dimensionless.div? least = none := by decide +kernel
  exact ⟨inner, other, assoc _ _ _ _ _ inner other, cancel _ _ _ inner, once,
    reciprocal _ _ once, power, sums _ _ _ _ _ power power, products _ _ _ _ power, outside,
    ((recips least).faults _).2 ⟨lost, rfl⟩⟩

end Dimension

end Metrology
