/-
Module: Metrology.Proofs.OperandOutcomes
Layer: Proofs
Purpose: What an operation on operands comes to. Whatever its operator, it gives a number, a unit
  that the checked algebra makes, or a combination of terms, unless the exponent of a power is none;
  and its ranges go into its errors only. Negations, sums and powers are also taken apart one by
  one. What is true of all operations is shown form by form, and not operator by operator.
Imports: Metrology.Evaluator, Metrology.Proofs.CheckedAlgebra, Metrology.Proofs.Outcome
Main exports: Operand.negate_eq_ok_iff, Operand.combine_cases, Operand.PowerOutcome,
  Operand.pow_outcome, Operand.Outcome, Operand.apply_outcome
-/
import Metrology.Evaluator
import Metrology.Proofs.CheckedAlgebra
import Metrology.Proofs.Outcome

namespace Metrology

open Formula (Error Operator)

namespace Operand

variable {span : Span} {o : Operand}

/-! ### Results of the algebra -/

theorem located_eq_ok_iff {result : Except AlgebraError MeasureUnit} {u : MeasureUnit} :
    located span result = .ok u ↔ result = .ok u := mapError_eq_ok_iff

theorem located_eq_overflow_iff {result : Except AlgebraError MeasureUnit} {at_ : Span} :
    located span result = .error (.exponentOverflow at_) ↔
      result = .error .exponentOverflow ∧ at_ = span := by
  rw [located, mapError_eq_error_iff]
  constructor
  · rintro ⟨cause, failed, same⟩
    cases cause <;> cases same
    exact ⟨failed, rfl⟩
  · rintro ⟨failed, rfl⟩
    exact ⟨_, failed, rfl⟩

theorem unit_map_eq_ok_iff {result : Except Error MeasureUnit} :
    Operand.unit <$> result = .ok o ↔ ∃ u, result = .ok u ∧ unit u = o := map_eq_ok_iff

theorem unit_map_eq_error_iff {result : Except Error MeasureUnit} {cause : Error} :
    Operand.unit <$> result = .error cause ↔ result = .error cause := map_eq_error_iff

/-! ### Negations, sums and powers -/

/-- A negated operand is a number. -/
theorem negate_eq_ok_iff {operand : Operand} :
    operand.negate span = .ok o ↔ ∃ k, operand = number k ∧ o = number (-k) := by
  cases operand <;> simp [negate, eq_comm]

/-- Unless both operands are numbers, their units are combined. -/
theorem combine_cases (operator : Formula.TermOperator) (left right : Operand) :
    (∃ a b, left = number a ∧ right = number b) ∨
      ∀ span, combine operator span left right = combineTerms operator span left right := by
  cases left with
  | number a =>
      cases right with
      | number b => exact .inl ⟨a, b, rfl, rfl⟩
      | unit v => exact .inr fun _ => rfl
  | unit u => cases right <;> exact .inr fun _ => rfl

/-- What a power comes to, for the range of its exponent and its own range. The exponent has to be a
    number, whole, and not too large. -/
inductive PowerOutcome : Operand → Operand → (Span → Span → Except Error Operand) → Prop where
  | badExponent {left right : Operand} (found : String) :
      PowerOutcome left right fun exponentSpan _ =>
        .error (.nonIntegerExponent found exponentSpan)
  | largeExponent {left : Operand} {k : Double} {n : Int} (whole : k.toInt? = some n)
      (large : Literal.exponentInRange n = false) :
      PowerOutcome left (number k) fun _ span => .error (.exponentOverflow span)
  | ofNumber {a k : Double} {n : Int} (whole : k.toInt? = some n) :
      PowerOutcome (number a) (number k) fun _ _ => .ok (number (a.power n))
  | ofUnit {u : MeasureUnit} {k : Double} {n : Int} (whole : k.toInt? = some n) :
      PowerOutcome (unit u) (number k) fun _ span =>
        Operand.unit <$> located span (u.checkedRaise n)

theorem pow_outcome (left right : Operand) :
    ∃ f, PowerOutcome left right f ∧
      ∀ exponentSpan span, pow exponentSpan span left right = f exponentSpan span := by
  cases right with
  | unit u => exact ⟨_, .badExponent _, fun _ _ => rfl⟩
  | number k =>
      cases whole : k.toInt? with
      | none =>
          refine ⟨_, .badExponent k.text, fun exponentSpan span => ?_⟩
          simp only [pow, wholeExponent, whole]
      | some n =>
          cases inRange : Literal.exponentInRange n with
          | false =>
              refine ⟨_, .largeExponent whole inRange, fun exponentSpan span => ?_⟩
              simp [pow, wholeExponent, whole, inRange]
          | true =>
              cases left with
              | number a =>
                  refine ⟨_, .ofNumber whole, fun exponentSpan span => ?_⟩
                  simp [pow, wholeExponent, whole, inRange]
              | unit u =>
                  refine ⟨_, .ofUnit whole, fun exponentSpan span => ?_⟩
                  simp [pow, wholeExponent, whole, inRange]

/-! ### All operations -/

/-- The forms of what an operation comes to, for the range of its exponent and its own range. -/
inductive Outcome (left right : Operand) : (Span → Span → Except Error Operand) → Prop where
  | number (k : Double) : Outcome left right fun _ _ => .ok (.number k)
  | made (result : Except AlgebraError MeasureUnit) (valid : ∀ u, result = .ok u → u.Valid) :
      Outcome left right fun _ span => Operand.unit <$> located span result
  | terms (operator : Formula.TermOperator) :
      Outcome left right fun _ span => combineTerms operator span left right
  | badExponent (found : String) :
      Outcome left right fun exponentSpan _ => .error (.nonIntegerExponent found exponentSpan)
  | largeExponent : Outcome left right fun _ span => .error (.exponentOverflow span)

theorem Outcome.scaled {left right : Operand} (u : MeasureUnit) (k : Double) :
    Outcome left right fun _ span => Operand.unit <$> located span (u.checkedScale k) :=
  .made _ fun _ => MeasureUnit.valid_of_checkedScale

theorem combine_outcome (operator : Formula.TermOperator) (left right : Operand) :
    ∃ f, Outcome left right f ∧
      ∀ exponentSpan span, combine operator span left right = f exponentSpan span := by
  rcases combine_cases operator left right with ⟨a, b, rfl, rfl⟩ | combined
  · exact ⟨_, .number (operator.onNumbers a b), fun _ _ => rfl⟩
  · exact ⟨_, .terms operator, fun _ span => combined span⟩

/-- Every operation has one of these forms. -/
theorem apply_outcome (op : Operator) (left right : Operand) :
    ∃ f, Outcome left right f ∧
      ∀ exponentSpan span, apply op exponentSpan span left right = f exponentSpan span := by
  cases op with
  | add => exact combine_outcome .add left right
  | sub => exact combine_outcome .subtract left right
  | mul =>
      cases left with
      | number a =>
          cases right with
          | number b => exact ⟨_, .number (a * b), fun _ _ => rfl⟩
          | unit v => exact ⟨_, .scaled v a, fun _ _ => rfl⟩
      | unit u =>
          cases right with
          | number b => exact ⟨_, .scaled u b, fun _ _ => rfl⟩
          | unit v =>
              exact ⟨_, .made (u.checkedMultiply v) fun _ => MeasureUnit.valid_of_checkedMultiply,
                fun _ _ => rfl⟩
  | div =>
      cases left with
      | number a =>
          cases right with
          | number b => exact ⟨_, .number (a / b), fun _ _ => rfl⟩
          | unit v =>
              refine ⟨_, .made _ fun w made => ?_, fun _ _ => rfl⟩
              obtain ⟨inverse, _, scaled⟩ := bind_eq_ok_iff.1 made
              exact MeasureUnit.valid_of_checkedScale scaled
      | unit u =>
          cases right with
          | number b => exact ⟨_, .scaled u (.one / b), fun _ _ => rfl⟩
          | unit v =>
              exact ⟨_, .made (u.checkedDivide v) fun _ => MeasureUnit.valid_of_checkedDivide,
                fun _ _ => rfl⟩
  | pow =>
      obtain ⟨f, outcome, same⟩ := pow_outcome left right
      refine ⟨f, ?_, same⟩
      cases outcome with
      | badExponent found => exact .badExponent found
      | largeExponent whole large => exact .largeExponent
      | @ofNumber a k n whole => exact .number (a.power n)
      | @ofUnit u k n whole =>
          exact .made (u.checkedRaise n) fun _ => MeasureUnit.valid_of_checkedRaise

end Operand

end Metrology
