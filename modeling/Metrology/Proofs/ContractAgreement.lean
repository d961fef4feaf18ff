/-
Module: Metrology.Proofs.ContractAgreement
Layer: Proofs
Purpose: Operations under a contract against their checked forms. The unchecked algebra tests the
  exponents before the factor, as the checked one does; so whatever the operands are, one has a
  result exactly where the other has it, the result is the same, and a fault is about exponents or
  about a factor as the reported error is. The operations on quantities add a value to the unit and
  no reason to fail.
Imports: Metrology.Quantity, Metrology.Proofs.CheckedAlgebra, Metrology.Proofs.Outcome
Main exports: Fault.cause, Corresponds, corresponds_iff, Corresponds.bind,
  MeasureUnit.corresponds_checkedUnit, checked_corresponds
-/
import Metrology.Quantity
import Metrology.Proofs.CheckedAlgebra
import Metrology.Proofs.Outcome

namespace Metrology

/-- The error that a checked operation reports where the unchecked one faults. -/
def Fault.cause : Fault → AlgebraError
  | exponentRange => .exponentOverflow
  | scaleArgument => .factorOutOfRange
  | factorRange => .factorOutOfRange

/-- An operation under a contract comes to the same as a checked one: they have the same results,
    the first faults over a dimension where the second reports an exponent, and over a factor or a
    number to scale by where the second reports a factor. -/
structure Corresponds {α : Type} (demanding : Except Fault α) (checked : Except AlgebraError α) :
    Prop where
  results : ∀ a, demanding = .ok a ↔ checked = .ok a
  exponents : (∃ f, demanding = .error f ∧ f.message = "dimension exponent out of range") ↔
    checked = .error .exponentOverflow
  factors : demanding = .error .scaleArgument ∨ demanding = .error .factorRange ↔
    checked = .error .factorOutOfRange

/-! ### Composed operations -/

section Composition

variable {α β : Type} {demanding : Except Fault α} {checked : Except AlgebraError α}

/-- Only a fault over a dimension says so. -/
theorem Fault.message_eq_iff {f : Fault} :
    f.message = "dimension exponent out of range" ↔ f = .exponentRange := by
  cases f <;> decide

/-- To correspond is to differ in how failures are spelled only. -/
theorem corresponds_iff :
    Corresponds demanding checked ↔ demanding.mapError Fault.cause = checked := by
  constructor
  · rintro ⟨results, exponents, factors⟩
    cases demanding with
    | ok a => exact ((results a).1 rfl).symm
    | error f =>
        cases f with
        | exponentRange => exact (exponents.1 ⟨_, rfl, rfl⟩).symm
        | scaleArgument => exact (factors.1 (.inl rfl)).symm
        | factorRange => exact (factors.1 (.inr rfl)).symm
  · rintro rfl
    refine ⟨fun _ => mapError_eq_ok_iff.symm, ?_, ?_⟩ <;> rw [mapError_eq_error_iff]
    · simp only [Fault.message_eq_iff]
      refine exists_congr fun f => and_congr_right fun _ => ?_
      cases f <;> simp [Fault.cause]
    · cases demanding with
      | ok a => simp
      | error f => cases f <;> simp [Fault.cause]

theorem corresponds_ok (a : α) : Corresponds (.ok a) (.ok a) := corresponds_iff.2 rfl

/-- Corresponding operations on corresponding operands correspond. -/
theorem Corresponds.bind {next : α → Except Fault β} {further : α → Except AlgebraError β}
    (h : Corresponds demanding checked) (h' : ∀ a, Corresponds (next a) (further a)) :
    Corresponds (demanding.bind next) (checked.bind further) := by
  rw [corresponds_iff] at h
  subst h
  cases demanding with
  | error f => exact corresponds_iff.2 rfl
  | ok a => exact h' a

end Composition

/-! ### Units -/

namespace MeasureUnit

theorem corresponds_checkedCreate (d : Dimension) (factor : Double) :
    Corresponds (create d factor) (checkedCreate d factor) := by
  unfold create checkedCreate
  split
  · exact corresponds_ok _
  · exact corresponds_iff.2 rfl

/-- Demanding the dimension of a vector and then the factor is testing both in this order. So a
    vector out of range is what is reported, whether or not the factor is one. -/
theorem corresponds_checkedUnit (v : ExponentVector) (factor : Double) :
    Corresponds ((Dimension.demand (Dimension.ofExponents? v)).bind fun d => create d factor)
      (checkedUnit v factor) := by
  unfold checkedUnit
  cases Dimension.ofExponents? v with
  | none => exact corresponds_iff.2 rfl
  | some d => exact corresponds_checkedCreate d factor

theorem corresponds_multiply (u v : MeasureUnit) :
    Corresponds (u.multiply v) (u.checkedMultiply v) :=
  corresponds_checkedUnit _ _

theorem corresponds_divide (u v : MeasureUnit) : Corresponds (u.divide v) (u.checkedDivide v) :=
  corresponds_checkedUnit _ _

theorem corresponds_raise (u : MeasureUnit) (n : Int) :
    Corresponds (u.raise n) (u.checkedRaise n) := by
  rw [checkedRaise_eq, raise, Dimension.pow, Dimension.pow?_eq]
  exact corresponds_checkedUnit _ _

theorem corresponds_scale (u : MeasureUnit) (k : Double) :
    Corresponds (u.scale k) (u.checkedScale k) := by
  unfold scale checkedScale
  split
  · exact corresponds_checkedCreate _ _
  · exact corresponds_iff.2 rfl

end MeasureUnit

/-! ### Quantities -/

/-- Each operation under a contract corresponds to its checked form: products, quotients, powers and
    multiples of units, whatever the operands and the numbers to raise to and to scale by are, and
    products, quotients and powers of quantities. -/
theorem checked_corresponds :
    (∀ u v : MeasureUnit, Corresponds (u.multiply v) (u.checkedMultiply v)) ∧
    (∀ u v : MeasureUnit, Corresponds (u.divide v) (u.checkedDivide v)) ∧
    (∀ (u : MeasureUnit) (n : Int), Corresponds (u.raise n) (u.checkedRaise n)) ∧
    (∀ (u : MeasureUnit) (k : Double), Corresponds (u.scale k) (u.checkedScale k)) ∧
    (∀ {α : Type} [Mul α] (a b : Quantity α), Corresponds (a.mul b) (a.checkedMul b)) ∧
    (∀ {α : Type} [Div α] (a b : Quantity α), Corresponds (a.div b) (a.checkedDiv b)) ∧
    ∀ {w : Width} (a : Quantity (Binary w)) (n : Int), Corresponds (a.pow n) (a.checkedPow n) := by
  refine ⟨MeasureUnit.corresponds_multiply, MeasureUnit.corresponds_divide,
    MeasureUnit.corresponds_raise, MeasureUnit.corresponds_scale, ?_, ?_, ?_⟩
  · intro α _ a b
    exact (a.unit.corresponds_multiply b.unit).bind fun u => corresponds_ok _
  · intro α _ a b
    exact (a.unit.corresponds_divide b.unit).bind fun u => corresponds_ok _
  · intro w a n
    exact (a.unit.corresponds_raise n).bind fun u => corresponds_ok _

/-- With an exponent and the factor both out of range, the exponent is what is reported. -/
example :
    let huge : MeasureUnit := ⟨.ofList 100 0 0 0 0, .finite false (2 ^ 2000) (by decide +kernel)⟩
    (huge.multiply huge, huge.checkedMultiply huge) =
      (.error .exponentRange, .error .exponentOverflow) := by
  decide +kernel

end Metrology
