/-
Module: Metrology.Proofs.LiteralOperands
Layer: Proofs
Purpose: Literals beside units. A literal denotes a dimensionless unit, and `*` and `/` between a
  unit and a literal are compared with the checked operations on that unit. Products agree in both
  orders. Quotients are computed through a reciprocal that is rounded, or overflows, on its own:
  they agree exactly when the two ways to the factor do, which they do for powers of two.
Imports: Metrology.Proofs.BinaryRatio, Metrology.Proofs.DimensionSoundness
Main exports: Literal.asUnit, Evaluator.report, Binary.SameFactor, MeasureUnit.checkedUnit_eq_iff,
  Evaluator.evaluateExpr_product, Evaluator.evaluateExpr_unit_quotient,
  Evaluator.evaluateExpr_literal_quotient, Evaluator.evaluate_literal_iff
-/
import Metrology.Proofs.BinaryRatio
import Metrology.Proofs.DimensionSoundness

namespace Metrology

open Formula (Expr Operator Error Token)

/-- The dimensionless unit that a literal denotes, if it is positive and finite. -/
def Literal.asUnit (value : Literal) : Except AlgebraError MeasureUnit :=
  MeasureUnit.one.checkedScale value.value

/-- Two factors that make the same unit or both make none. -/
def Binary.SameFactor (a b : Double) : Prop :=
  a = b ∨ a.isPositiveFinite = false ∧ b.isPositiveFinite = false

instance (a b : Double) : Decidable (a.SameFactor b) := inferInstanceAs (Decidable (_ ∨ _))

/-! ### The algebra on literals -/

namespace MeasureUnit

variable {u : MeasureUnit} {k : Double}

/-- A unit with the exponents of a dimension needs no test of them. -/
theorem checkedUnit_exponent (d : Dimension) (factor : Double) :
    checkedUnit d.exponent factor = checkedCreate d factor := by
  have represented : Dimension.ofExponents? d.exponent = some d :=
    Dimension.ofExponents?_eq_some_iff.2 fun _ => rfl
  simp only [checkedUnit, represented]

theorem checkedCreate_eq_iff {d : Dimension} {a b : Double} :
    checkedCreate d a = checkedCreate d b ↔ a.SameFactor b := by
  unfold checkedCreate Binary.SameFactor
  by_cases positiveA : a.isPositiveFinite = true <;> by_cases positiveB : b.isPositiveFinite = true
  · simp [positiveA, positiveB]
  · have different : a ≠ b := fun same => positiveB (same ▸ positiveA)
    simp [positiveA, positiveB, different]
  · have different : a ≠ b := fun same => positiveA (same ▸ positiveB)
    simp [positiveA, positiveB, different]
  · simp [positiveA, positiveB]

/-- Units of the same exponents are the same, or fail alike, if the exponents cannot be represented
    or the factors make the same unit. -/
theorem checkedUnit_eq_iff {v : ExponentVector} {a b : Double} :
    checkedUnit v a = checkedUnit v b ↔ ¬v.InRange ∨ a.SameFactor b := by
  rw [← Dimension.ofExponents?_eq_none_iff]
  cases represented : Dimension.ofExponents? v with
  | none => simp [checkedUnit, represented]
  | some d => simp [checkedUnit, represented, checkedCreate_eq_iff]

/-- The number one is scaled to the literal itself. -/
theorem checkedScale_one (positive : k.isPositiveFinite = true) :
    one.checkedScale k = .ok ⟨.dimensionless, k⟩ := by
  have product : one.factor * k = k := Binary.one_mul k
  simp only [checkedScale, positive, if_true, product, checkedCreate]
  rfl

/-- Where a scaled factor is fine only if the number is, the number needs no test of its own. -/
theorem checkedScale_eq_checkedCreate
    (h : (u.factor * k).isPositiveFinite = true → k.isPositiveFinite = true) :
    u.checkedScale k = checkedCreate u.dimension (u.factor * k) := by
  unfold checkedScale
  split
  · rfl
  · next other =>
      have product : ¬(u.factor * k).isPositiveFinite = true := fun fine => other (h fine)
      simp only [checkedCreate, product, Bool.false_eq_true, if_false]

theorem checkedMultiply_comm (u v : MeasureUnit) : u.checkedMultiply v = v.checkedMultiply u := by
  have exponents : (fun q => u.dimension.exponent q + v.dimension.exponent q) =
      fun q => v.dimension.exponent q + u.dimension.exponent q :=
    funext fun _ => Int.add_comm _ _
  rw [checkedMultiply_eq, checkedMultiply_eq, exponents, Binary.mul_comm]

theorem checkedMultiply_literal (u : MeasureUnit) (k : Double) :
    u.checkedMultiply ⟨.dimensionless, k⟩ = checkedCreate u.dimension (u.factor * k) := by
  have exponents : (fun q => u.dimension.exponent q + Dimension.dimensionless.exponent q) =
      u.dimension.exponent := by
    funext q
    cases q <;> exact Int.add_zero _
  rw [checkedMultiply_eq, exponents, checkedUnit_exponent]

theorem literal_checkedMultiply (u : MeasureUnit) (k : Double) :
    checkedMultiply ⟨.dimensionless, k⟩ u = checkedCreate u.dimension (u.factor * k) := by
  rw [checkedMultiply_comm, checkedMultiply_literal]

theorem checkedDivide_literal (u : MeasureUnit) (k : Double) :
    u.checkedDivide ⟨.dimensionless, k⟩ = checkedCreate u.dimension (u.factor / k) := by
  have exponents : (fun q => u.dimension.exponent q - Dimension.dimensionless.exponent q) =
      u.dimension.exponent := by
    funext q
    cases q <;> exact Int.sub_zero _
  rw [checkedDivide_eq, exponents, checkedUnit_exponent]

theorem literal_checkedDivide (u : MeasureUnit) (k : Double) :
    checkedDivide ⟨.dimensionless, k⟩ u =
      checkedUnit (fun q => -u.dimension.exponent q) (k / u.factor) := by
  have exponents : (fun q => Dimension.dimensionless.exponent q - u.dimension.exponent q) =
      fun q => -u.dimension.exponent q := by
    funext q
    cases q <;> exact Int.zero_sub _
  rw [checkedDivide_eq, exponents]

/-- A number times the reciprocal of a unit. -/
theorem scaled_reciprocal (positive : k.isPositiveFinite = true) :
    ((one.checkedDivide u).bind fun inverse => inverse.checkedScale k) =
      checkedUnit (fun q => -u.dimension.exponent q) (.one / u.factor * k) := by
  have divided : one.checkedDivide u =
      checkedUnit (fun q => -u.dimension.exponent q) (.one / u.factor) := literal_checkedDivide u _
  rw [divided]
  cases represented : Dimension.ofExponents? fun q => -u.dimension.exponent q with
  | none =>
      simp only [checkedUnit, represented]
      rfl
  | some d =>
      simp only [checkedUnit, represented, checkedCreate]
      split
      · exact checkedScale_eq_checkedCreate fun _ => positive
      · next other =>
          have product : ¬(Binary.one / u.factor * k).isPositiveFinite = true := fun fine =>
            other (Binary.isPositiveFinite_left_of_mul fine positive)
          simp only [product, Bool.false_eq_true, if_false]
          rfl

end MeasureUnit

/-! ### Formulas -/

namespace Evaluator

variable {e : Evaluator} {expr : Expr} {u : MeasureUnit} {value : Literal} {span at_ : Span}

/-- A result of the algebra as the outcome of an evaluation about a range. -/
def report (span : Span) (result : Except AlgebraError MeasureUnit) :
    Except (Failure Error) MeasureUnit :=
  (Operand.located span result).mapError .error

/-- Outcomes about one range are the same only for the same result. -/
theorem report_inj {a b : Except AlgebraError MeasureUnit} :
    report span a = report span b ↔ a = b := by
  constructor
  · intro h
    cases a with
    | ok u =>
        cases b with
        | ok v =>
            cases h
            rfl
        | error cause => cases h
    | error cause =>
        cases b with
        | ok v => cases h
        | error cause' => cases cause <;> cases cause' <;> first | rfl | cases h
  · rintro rfl
    rfl

/-- An operation whose operands denote something, and which the algebra carries out. -/
theorem evaluateExpr_of_apply {op : Operator} {left right : Expr} {l r : Operand}
    {result : Except AlgebraError MeasureUnit} (foldedLeft : e.fold left = .ok l)
    (foldedRight : e.fold right = .ok r)
    (applied : Operand.apply op right.span span l r =
      Operand.unit <$> Operand.located span result) :
    e.evaluateExpr (.binary op left right span) = report span result := by
  rw [evaluateExpr_eq, fold_binary, foldedLeft, foldedRight]
  simp only [Except.bind, applied]
  cases result <;> rfl

/-- A unit times a literal is the product with the literal's unit, in either order. -/
theorem evaluateExpr_product (folded : e.fold expr = .ok (.unit u))
    (positive : value.value.isPositiveFinite = true) :
    e.evaluateExpr (.binary .mul expr (.number value at_) span) =
        report span (value.asUnit.bind fun k => u.checkedMultiply k) ∧
      e.evaluateExpr (.binary .mul (.number value at_) expr span) =
        report span (value.asUnit.bind fun k => k.checkedMultiply u) := by
  have number : e.fold (.number value at_) = .ok (.number value.value) := rfl
  have scaled : u.checkedScale value.value =
      MeasureUnit.checkedCreate u.dimension (u.factor * value.value) :=
    MeasureUnit.checkedScale_eq_checkedCreate fun _ => positive
  rw [Literal.asUnit, MeasureUnit.checkedScale_one positive, Except.bind, Except.bind,
    MeasureUnit.checkedMultiply_literal, MeasureUnit.literal_checkedMultiply, ← scaled]
  exact ⟨evaluateExpr_of_apply folded number rfl, evaluateExpr_of_apply number folded rfl⟩

/-- A unit over a literal is the quotient by the literal's unit exactly when the reciprocal of the
    literal leads to the same factor. -/
theorem evaluateExpr_unit_quotient (folded : e.fold expr = .ok (.unit u))
    (positive : value.value.isPositiveFinite = true) :
    e.evaluateExpr (.binary .div expr (.number value at_) span) =
        report span (value.asUnit.bind fun k => u.checkedDivide k) ↔
      (u.factor * (.one / value.value)).SameFactor (u.factor / value.value) := by
  have number : e.fold (.number value at_) = .ok (.number value.value) := rfl
  have scaled : u.checkedScale (.one / value.value) =
      MeasureUnit.checkedCreate u.dimension (u.factor * (.one / value.value)) :=
    MeasureUnit.checkedScale_eq_checkedCreate fun fine =>
      Binary.isPositiveFinite_reciprocal_of_mul fine positive
  rw [evaluateExpr_of_apply folded number rfl, report_inj, scaled, Literal.asUnit,
    MeasureUnit.checkedScale_one positive, Except.bind, MeasureUnit.checkedDivide_literal,
    MeasureUnit.checkedCreate_eq_iff]

/-- A literal over a unit is the quotient of the literal's unit exactly when the reciprocal of the
    unit's factor leads to the same factor, or the exponents cannot be negated anyway. -/
theorem evaluateExpr_literal_quotient (folded : e.fold expr = .ok (.unit u))
    (positive : value.value.isPositiveFinite = true) :
    e.evaluateExpr (.binary .div (.number value at_) expr span) =
        report span (value.asUnit.bind fun k => k.checkedDivide u) ↔
      (¬ExponentVector.InRange fun q => -u.dimension.exponent q) ∨
        (.one / u.factor * value.value : Double).SameFactor (value.value / u.factor) := by
  have number : e.fold (.number value at_) = .ok (.number value.value) := rfl
  rw [evaluateExpr_of_apply number folded rfl, report_inj, MeasureUnit.scaled_reciprocal positive,
    Literal.asUnit, MeasureUnit.checkedScale_one positive, Except.bind,
    MeasureUnit.literal_checkedDivide, MeasureUnit.checkedUnit_eq_iff]

/-- Literals beside a unit. Products with a literal are products with its unit, in both orders; a
    quotient is the quotient with its unit exactly when a rounded reciprocal leads to the same
    factor as the quotient itself, and always when what is divided by is a power of two. -/
theorem evaluate_literal_iff (folded : e.fold expr = .ok (.unit u))
    (positive : value.value.isPositiveFinite = true) :
    e.evaluateExpr (.binary .mul expr (.number value at_) span) =
        report span (value.asUnit.bind fun k => u.checkedMultiply k) ∧
      e.evaluateExpr (.binary .mul (.number value at_) expr span) =
        report span (value.asUnit.bind fun k => k.checkedMultiply u) ∧
      (e.evaluateExpr (.binary .div expr (.number value at_) span) =
          report span (value.asUnit.bind fun k => u.checkedDivide k) ↔
        (u.factor * (.one / value.value)).SameFactor (u.factor / value.value)) ∧
      (e.evaluateExpr (.binary .div (.number value at_) expr span) =
          report span (value.asUnit.bind fun k => k.checkedDivide u) ↔
        (¬ExponentVector.InRange fun q => -u.dimension.exponent q) ∨
          (.one / u.factor * value.value : Double).SameFactor (value.value / u.factor)) ∧
      (value.value.InvertiblePower →
        (u.factor * (.one / value.value)).SameFactor (u.factor / value.value)) ∧
      (u.factor.InvertiblePower →
        (.one / u.factor * value.value : Double).SameFactor (value.value / u.factor)) := by
  obtain ⟨unitTimesLiteral, literalTimesUnit⟩ := evaluateExpr_product folded positive
  refine ⟨unitTimesLiteral, literalTimesUnit, evaluateExpr_unit_quotient folded positive,
    evaluateExpr_literal_quotient folded positive, ?_, ?_⟩
  · intro power
    exact .inl (power.mul_reciprocal u.factor)
  · intro power
    rw [Binary.mul_comm]
    exact .inl (power.mul_reciprocal value.value)

/-- A length of some metres. -/
def metres (factor : Double) : MeasureUnit := ⟨.base .length, factor⟩

/-- Five metres beside the number three: they multiply as units do, and do not divide so. -/
theorem evaluate_literal_iff_five_metres :
    let e := (ofTable .defaults).extend [("u", metres (.ofNat 5))]
    let name : Expr := .name "u" ⟨0, 1⟩
    let three : Expr := .number (.whole 3) ⟨2, 3⟩
    e.fold name = .ok (.unit (metres (.ofNat 5))) ∧
      (Literal.whole 3).value.isPositiveFinite = true ∧
      e.evaluateExpr (.binary .mul name three ⟨0, 3⟩) =
        report ⟨0, 3⟩ ((metres (.ofNat 5)).checkedMultiply ⟨.dimensionless, .ofNat 3⟩) ∧
      e.evaluateExpr (.binary .div name three ⟨0, 3⟩) ≠
        report ⟨0, 3⟩ ((metres (.ofNat 5)).checkedDivide ⟨.dimensionless, .ofNat 3⟩) := by
  intro e name three
  have folded : e.fold name = .ok (.unit (metres (.ofNat 5))) := by decide +kernel
  have positive : (Literal.whole 3).value.isPositiveFinite = true := by decide +kernel
  have literal : (Literal.whole 3).asUnit = .ok ⟨.dimensionless, .ofNat 3⟩ :=
    MeasureUnit.checkedScale_one positive
  obtain ⟨product, _, quotient, _⟩ :=
    @evaluate_literal_iff e name _ (.whole 3) ⟨0, 3⟩ ⟨2, 3⟩ folded positive
  rw [literal, Except.bind] at product quotient
  refine ⟨folded, positive, product, fun same => ?_⟩
  have factors : ¬((metres (.ofNat 5)).factor * (.one / (Literal.whole 3).value)).SameFactor
      ((metres (.ofNat 5)).factor / (Literal.whole 3).value) := by decide +kernel
  exact factors (quotient.1 same)

/-- Five metres over three are rounded twice, and come out one unit in the last place too small; and
    a tenth of a nanometre over `1e-309` is a length of about `1e299` metres, but the reciprocal of
    the literal overflows. -/
theorem evaluateWith_quotient_by_reciprocal :
    evaluateWith [("u", metres (.ofNat 5))] "u/3" ≠
        report ⟨0, 3⟩ ((Literal.whole 3).asUnit.bind fun k => (metres (.ofNat 5)).checkedDivide k) ∧
      evaluateWith [("u", metres (Decimal.toBinary .double false ⟨1, -10⟩))] "u/1e-309" =
        .error (.error (.invalidScale ⟨0, 8⟩)) ∧
      (Literal.read "1e-309").toOption.map (fun value => (value.asUnit.bind fun k =>
          (metres (Decimal.toBinary .double false ⟨1, -10⟩)).checkedDivide k).isOk) =
        some true := by
  have lexedThree : Token.lex "u/3" =
      .ok [⟨.name, ⟨0, 1⟩, "u"⟩, ⟨.slash, ⟨1, 2⟩, "/"⟩, ⟨.number, ⟨2, 3⟩, "3"⟩,
        ⟨.finish, .point 3, ""⟩] := by decide +kernel
  have three : Literal.read "3" = .ok (.whole 3) := by decide +kernel
  have lexedSmall : Token.lex "u/1e-309" =
      .ok [⟨.name, ⟨0, 1⟩, "u"⟩, ⟨.slash, ⟨1, 2⟩, "/"⟩, ⟨.number, ⟨2, 8⟩, "1e-309"⟩,
        ⟨.finish, .point 8, ""⟩] := by decide +kernel
  have small : Literal.read "1e-309" =
      .ok (.real (Decimal.toBinary .double false ⟨1, -309⟩)) := by decide +kernel
  refine ⟨?_, ?_, ?_⟩
  · rw [evaluateWith,
      evaluate_eq_of_parse (Formula.parse_of_lex_operation lexedThree rfl rfl rfl three rfl)]
    decide +kernel
  · rw [evaluateWith,
      evaluate_eq_of_parse (Formula.parse_of_lex_operation lexedSmall rfl rfl rfl small rfl)]
    decide +kernel
  · rw [small]
    decide +kernel

end Evaluator

end Metrology
