/-
Module: Metrology.Proofs.TypedSimulation
Layer: Proofs
Purpose: Quantities with the unit in their type and quantities that carry it are computed alike.
  An expression over typed quantities is erased to the same expression over carried units, in which
  every operation tests what the types had settled before. Whenever the unit of the result is
  defined, the erased expression succeeds, with the typed value and that unit.
Imports: Metrology.TypedQuantity, Metrology.Evaluator, Metrology.Proofs.BinaryRatio,
  Metrology.Proofs.Outcome
Main exports: UnitTerm.valid_unit, QuantityExpr, QuantityExpr.run, TypedExpr, TypedExpr.eval,
  TypedExpr.erase, TypedExpr.run_erase, TypedQuantity.toTyped_toQuantity,
  TypedQuantity.convertValue_eq, TypedExpr.erase_simulates
-/
import Metrology.TypedQuantity
import Metrology.Evaluator
import Metrology.Proofs.BinaryRatio
import Metrology.Proofs.Outcome

namespace Metrology

/-! ### Units of terms -/

namespace UnitTerm

theorem wellDefined_of_definition {t : UnitTerm} {u : MeasureUnit} (h : t.definition = .ok u) :
    t.WellDefined := by
  rw [WellDefined, h]
  rfl

/-- A defined unit that is derived from one other is derived from a defined one. -/
theorem unit_of_bind {a t : UnitTerm} {f : MeasureUnit → Except Fault MeasureUnit}
    (derived : t.definition = a.definition.bind f) (h : t.WellDefined) :
    ∃ ha : a.WellDefined, f (a.unit ha) = .ok (t.unit h) := by
  rw [t.definition_eq_unit h] at derived
  obtain ⟨u, defined, result⟩ := bind_eq_ok_iff.1 derived.symm
  exact ⟨wellDefined_of_definition defined, by rw [unit_eq _ defined, result]⟩

/-- A defined unit that is derived from two others is derived from defined ones. -/
theorem unit_of_bind₂ {a b t : UnitTerm} {f : MeasureUnit → MeasureUnit → Except Fault MeasureUnit}
    (derived : t.definition = a.definition.bind fun u => b.definition.bind (f u))
    (h : t.WellDefined) :
    ∃ (ha : a.WellDefined) (hb : b.WellDefined), f (a.unit ha) (b.unit hb) = .ok (t.unit h) := by
  obtain ⟨ha, later⟩ := unit_of_bind derived h
  obtain ⟨v, defined, result⟩ := bind_eq_ok_iff.1 later
  exact ⟨ha, wellDefined_of_definition defined, by rw [unit_eq _ defined, result]⟩

variable {a b t : UnitTerm}

theorem unit_product (h : (product a b).WellDefined) : ∃ (ha : a.WellDefined) (hb : b.WellDefined),
    (a.unit ha).multiply (b.unit hb) = .ok ((product a b).unit h) :=
  unit_of_bind₂ rfl h

theorem unit_quotient (h : (quotient a b).WellDefined) :
    ∃ (ha : a.WellDefined) (hb : b.WellDefined),
      (a.unit ha).divide (b.unit hb) = .ok ((quotient a b).unit h) :=
  unit_of_bind₂ rfl h

theorem unit_power {n : Int} (h : (power a n).WellDefined) :
    ∃ ha : a.WellDefined, (a.unit ha).raise n = .ok ((power a n).unit h) :=
  unit_of_bind (f := (·.raise n)) rfl h

theorem unit_prefixed {p : MetricPrefix} (h : (prefixed a p).WellDefined) :
    ∃ ha : a.WellDefined, (a.unit ha).applyPrefix p = .ok ((prefixed a p).unit h) :=
  unit_of_bind (f := (·.applyPrefix p)) rfl h

/-- The factor of a defined unit is positive and finite: predefined factors are, and the others are
    tested last. -/
theorem valid_unit (h : t.WellDefined) : (t.unit h).Valid := by
  cases t with
  | one => exact MeasureUnit.valid_one
  | named u => exact u.valid_unit
  | product a b =>
      obtain ⟨_, _, result⟩ := unit_product h
      exact MeasureUnit.valid_of_bind_create result
  | quotient a b =>
      obtain ⟨_, _, result⟩ := unit_quotient h
      exact MeasureUnit.valid_of_bind_create result
  | power a n =>
      obtain ⟨_, result⟩ := unit_power h
      exact MeasureUnit.valid_of_bind_create result
  | prefixed a p =>
      obtain ⟨_, result⟩ := unit_prefixed h
      exact MeasureUnit.valid_of_applyPrefix result

theorem Compatible.conversionFactor_eq {s t : UnitTerm} (h : s.Compatible t) :
    (s.unit h.1).conversionFactor (t.unit h.2.1) =
      .ok ((s.unit h.1).factor / (t.unit h.2.1).factor) :=
  if_pos h.2.2

end UnitTerm

/-- A valid unit is converted into itself by one. -/
theorem MeasureUnit.conversionFactor_self {u : MeasureUnit} (valid : u.Valid) :
    u.conversionFactor u = .ok .one := by
  rw [conversionFactor, isCompatible, decide_eq_true rfl, if_pos rfl, Binary.div_self valid]

/-! ### Operations -/

namespace TypedQuantity

section AnyNumber

variable {α : Type} {s t : UnitTerm}

theorem demandSameUnit_toQuantity (a : TypedQuantity α s) (b : TypedQuantity α t)
    (same : s.SameUnit t) :
    (a.toQuantity same.1).demandSameUnit (b.toQuantity same.2.1) = .ok () :=
  if_pos same.2.2

theorem tryAdd_toQuantity [Add α] (a : TypedQuantity α s) (b : TypedQuantity α t)
    (same : s.SameUnit t) : (a.toQuantity same.1).tryAdd (b.toQuantity same.2.1) =
      .ok ((a.add b same).toQuantity same.1) := by
  rw [Quantity.tryAdd, demandSameUnit_toQuantity a b same]
  rfl

theorem trySub_toQuantity [Sub α] (a : TypedQuantity α s) (b : TypedQuantity α t)
    (same : s.SameUnit t) : (a.toQuantity same.1).trySub (b.toQuantity same.2.1) =
      .ok ((a.sub b same).toQuantity same.1) := by
  rw [Quantity.trySub, demandSameUnit_toQuantity a b same]
  rfl

theorem mul_toQuantity [Mul α] (a : TypedQuantity α s) (b : TypedQuantity α t)
    (h : (UnitTerm.product s t).WellDefined) :
    ∃ (hs : s.WellDefined) (ht : t.WellDefined),
      (a.toQuantity hs).mul (b.toQuantity ht) = .ok ((a.mul b).toQuantity h) := by
  obtain ⟨hs, ht, units⟩ := UnitTerm.unit_product h
  refine ⟨hs, ht, ?_⟩
  simp only [Quantity.mul, toQuantity, units]
  rfl

theorem div_toQuantity [Div α] (a : TypedQuantity α s) (b : TypedQuantity α t)
    (h : (UnitTerm.quotient s t).WellDefined) :
    ∃ (hs : s.WellDefined) (ht : t.WellDefined),
      (a.toQuantity hs).div (b.toQuantity ht) = .ok ((a.div b).toQuantity h) := by
  obtain ⟨hs, ht, units⟩ := UnitTerm.unit_quotient h
  refine ⟨hs, ht, ?_⟩
  simp only [Quantity.div, toQuantity, units]
  rfl

end AnyNumber

variable {w : Width} {s t : UnitTerm}

theorem pow_toQuantity (a : TypedQuantity (Binary w) t) {n : Int}
    (h : (UnitTerm.power t n).WellDefined) :
    ∃ ht : t.WellDefined, (a.toQuantity ht).pow n = .ok ((a.pow n).toQuantity h) := by
  obtain ⟨ht, units⟩ := UnitTerm.unit_power h
  refine ⟨ht, ?_⟩
  simp only [Quantity.pow, toQuantity, units]
  rfl

theorem convertTo_toQuantity (a : TypedQuantity (Binary w) s) (h : s.Compatible t) :
    (a.toQuantity h.1).convertTo (t.unit h.2.1) =
      .ok ((a.convertTo t h).toQuantity h.2.1) := by
  simp only [Quantity.convertTo, toQuantity, h.conversionFactor_eq]
  rfl

/-- A double is converted as a plain value is. -/
theorem convertValue_eq (a : TypedQuantity Double s) (h : s.Compatible t) :
    convertValue a.value (s.unit h.1) (t.unit h.2.1) = .ok (a.convertTo t h).value := by
  rw [convertValue, h.conversionFactor_eq, convertTo, ratio, Binary.convert_self]
  rfl

/-- Moving the unit out of the type and back changes nothing. -/
theorem toTyped_toQuantity (a : TypedQuantity (Binary w) t) (h : t.WellDefined) :
    (a.toQuantity h).toTyped t h = .ok a := by
  have back : (a.toQuantity h).convertTo (t.unit h) = .ok (a.toQuantity h) := by
    simp only [Quantity.convertTo, toQuantity,
      MeasureUnit.conversionFactor_self (UnitTerm.valid_unit h)]
    change Except.ok (Quantity.mk (a.value * Binary.convert w .one) (t.unit h)) = _
    rw [Binary.convert_one, Binary.mul_one]
  rw [Quantity.toTyped, back]
  rfl

end TypedQuantity

/-! ### Expressions -/

/-- An expression over quantities that carry their unit. -/
inductive QuantityExpr (w : Width) where
  | operand (q : Quantity (Binary w))
  | add (a b : QuantityExpr w)
  | sub (a b : QuantityExpr w)
  | neg (a : QuantityExpr w)
  | mul (a b : QuantityExpr w)
  | div (a b : QuantityExpr w)
  | pow (a : QuantityExpr w) (n : Int)
  | convertTo (a : QuantityExpr w) (target : MeasureUnit)

/-- The result of an expression: sums and conversions report errors, products, quotients and powers
    fault. -/
def QuantityExpr.run {w : Width} :
    QuantityExpr w → Except (Failure ConversionError) (Quantity (Binary w))
  | operand q => .ok q
  | add a b => do ((← a.run).tryAdd (← b.run)).mapError .error
  | sub a b => do ((← a.run).trySub (← b.run)).mapError .error
  | neg a => do return (← a.run).neg
  | mul a b => do ((← a.run).mul (← b.run)).mapError .fault
  | div a b => do ((← a.run).div (← b.run)).mapError .fault
  | pow a n => do ((← a.run).pow n).mapError .fault
  | convertTo a target => do ((← a.run).convertTo target).mapError .error

/-- An expression over typed quantities, with the term for the unit of its result. -/
inductive TypedExpr (w : Width) : UnitTerm → Type where
  | operand {t : UnitTerm} (q : TypedQuantity (Binary w) t) (h : t.WellDefined) : TypedExpr w t
  | add {s t : UnitTerm} (a : TypedExpr w s) (b : TypedExpr w t) (same : s.SameUnit t) :
      TypedExpr w s
  | sub {s t : UnitTerm} (a : TypedExpr w s) (b : TypedExpr w t) (same : s.SameUnit t) :
      TypedExpr w s
  | neg {t : UnitTerm} (a : TypedExpr w t) : TypedExpr w t
  | mul {s t : UnitTerm} (a : TypedExpr w s) (b : TypedExpr w t) : TypedExpr w (.product s t)
  | div {s t : UnitTerm} (a : TypedExpr w s) (b : TypedExpr w t) : TypedExpr w (.quotient s t)
  | pow {t : UnitTerm} (a : TypedExpr w t) (n : Int) : TypedExpr w (.power t n)
  | convertTo {s : UnitTerm} (a : TypedExpr w s) (t : UnitTerm) (h : s.Compatible t) : TypedExpr w t

namespace TypedExpr

variable {w : Width} {t : UnitTerm}

/-- The typed result, which there always is. -/
def eval {t : UnitTerm} : TypedExpr w t → TypedQuantity (Binary w) t
  | operand q _ => q
  | add a b same => a.eval.add b.eval same
  | sub a b same => a.eval.sub b.eval same
  | neg a => a.eval.neg
  | mul a b => a.eval.mul b.eval
  | div a b => a.eval.div b.eval
  | pow a n => a.eval.pow n
  | convertTo a t h => a.eval.convertTo t h

/-- The same expression with the units of its operands and targets carried along. -/
def erase {t : UnitTerm} : TypedExpr w t → QuantityExpr w
  | operand q h => .operand (q.toQuantity h)
  | add a b _ => .add a.erase b.erase
  | sub a b _ => .sub a.erase b.erase
  | neg a => .neg a.erase
  | mul a b => .mul a.erase b.erase
  | div a b => .div a.erase b.erase
  | pow a n => .pow a.erase n
  | convertTo a t h => .convertTo a.erase (t.unit h.2.1)

/-- Without types the expression comes to the same quantity. The units of sums and conversions are
    defined by the proofs they were given, those of the other parts with the unit of the whole. -/
theorem run_erase (e : TypedExpr w t) (h : t.WellDefined) :
    e.erase.run = .ok (e.eval.toQuantity h) := by
  induction e with
  | operand q _ => rfl
  | add a b same ihA ihB =>
      simp only [erase, QuantityExpr.run, ihA same.1, ihB same.2.1]
      exact congrArg (Except.mapError _) (a.eval.tryAdd_toQuantity b.eval same)
  | sub a b same ihA ihB =>
      simp only [erase, QuantityExpr.run, ihA same.1, ihB same.2.1]
      exact congrArg (Except.mapError _) (a.eval.trySub_toQuantity b.eval same)
  | neg a ih =>
      simp only [erase, QuantityExpr.run, ih h]
      rfl
  | mul a b ihA ihB =>
      obtain ⟨hs, ht, result⟩ := a.eval.mul_toQuantity b.eval h
      simp only [erase, QuantityExpr.run, ihA hs, ihB ht]
      exact congrArg (Except.mapError _) result
  | div a b ihA ihB =>
      obtain ⟨hs, ht, result⟩ := a.eval.div_toQuantity b.eval h
      simp only [erase, QuantityExpr.run, ihA hs, ihB ht]
      exact congrArg (Except.mapError _) result
  | pow a n ih =>
      obtain ⟨ht, result⟩ := a.eval.pow_toQuantity h
      simp only [erase, QuantityExpr.run, ih ht]
      exact congrArg (Except.mapError _) result
  | convertTo a t compatible ih =>
      simp only [erase, QuantityExpr.run, ih compatible.1]
      exact congrArg (Except.mapError _) (a.eval.convertTo_toQuantity compatible)

/-- Quantities with the unit in their type are simulated by those that carry it: an expression that
    has a typed result and a defined unit comes to that value in that unit, a double is converted as
    a plain value is, and a quantity that goes from one side to the other and back is the same. -/
theorem erase_simulates (e : TypedExpr w t) (h : t.WellDefined) :
    e.erase.run = .ok (e.eval.toQuantity h) ∧
    (∀ (q : TypedQuantity Double t) (target : UnitTerm) (compatible : t.Compatible target),
      convertValue q.value (t.unit h) (target.unit compatible.2.1) =
        .ok (q.convertTo target compatible).value) ∧
    (∀ q : TypedQuantity (Binary w) t, (q.toQuantity h).toTyped t h = .ok q) :=
  ⟨e.run_erase h, fun q _ compatible => q.convertValue_eq compatible,
    fun q => q.toTyped_toQuantity h⟩

/-- The speed of three kilometres and two metres in five seconds. -/
def speed : TypedExpr .single (.quotient (.named .meter) (.named .second)) :=
  .div
    (.add
      (.convertTo (.operand (t := .prefixed (.named .meter) .kilo) ⟨.ofNat 3⟩ (by decide +kernel))
        (.named .meter) (by decide +kernel))
      (.operand (t := .named .meter) ⟨.ofNat 2⟩ (by decide +kernel)) (by decide +kernel))
    (.operand (t := .named .second) ⟨.ofNat 5⟩ (by decide +kernel))

theorem erase_simulates_speed :
    (UnitTerm.quotient (.named .meter) (.named .second)).WellDefined ∧
    speed.erase.run = .ok ⟨.ofNat 3002 / .ofNat 5, ⟨Dimension.velocity, .one⟩⟩ := by
  have defined : (UnitTerm.quotient (.named .meter) (.named .second)).WellDefined := by
    decide +kernel
  obtain ⟨run, -, -⟩ := erase_simulates speed defined
  have result : speed.eval.toQuantity defined = ⟨.ofNat 3002 / .ofNat 5, ⟨.velocity, .one⟩⟩ := by
    decide +kernel +revert
  exact ⟨defined, by rw [run, result]⟩

end TypedExpr

end Metrology
