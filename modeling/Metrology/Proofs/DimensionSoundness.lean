/-
Module: Metrology.Proofs.DimensionSoundness
Layer: Proofs
Purpose: The dimension of an evaluated formula is what exact integer arithmetic on exponent vectors
  makes of its tree. The exact vector has no range, so nothing in it can wrap or be cut off; an
  evaluation that gives a unit gives the same vector, and one that reports an exponent overflow has
  met a vector or a power out of range somewhere in the tree.
Imports: Metrology.Proofs.EvaluatorFold, Metrology.Proofs.FormulaShape,
  Metrology.Proofs.GrammarFailure, Metrology.Proofs.OperandOutcomes
Main exports: Evaluator.vector?, Operand.exponent, Evaluator.vector?_eq_of_fold,
  Evaluator.leavesRange_of_fold, Evaluator.evaluate_dimension
-/
import Metrology.Proofs.EvaluatorFold
import Metrology.Proofs.FormulaShape
import Metrology.Proofs.GrammarFailure
import Metrology.Proofs.OperandOutcomes

namespace Metrology

open Formula (Expr Operator Error Token parse_of_reads stops_of_no_operator)

namespace ExponentVector

def zero : ExponentVector := fun _ => 0

/-- Vectors are compared one base quantity at a time. -/
def same (v w : ExponentVector) : Bool := BaseQuantity.writingOrder.all fun q => v q == w q

theorem same_iff {v w : ExponentVector} : v.same w = true ↔ v = w := by
  constructor
  · intro h
    funext q
    have equal := List.all_eq_true.1 h q q.mem_writingOrder
    exact beq_iff_eq.1 equal
  · rintro rfl
    exact List.all_eq_true.2 fun q _ => beq_self_eq_true (v q)

/-- What an operator other than a power makes of two vectors; a sum needs the same one twice. -/
def combine? : Operator → ExponentVector → ExponentVector → Option ExponentVector
  | .mul, v, w => some fun q => v q + w q
  | .div, v, w => some fun q => v q - w q
  | _, v, w => if v.same w then some v else none

end ExponentVector

namespace Evaluator

variable {e : Evaluator}

/-- The integer that a tree of a whole number denotes. -/
def wholeValue? (e : Evaluator) (expr : Expr) : Option Int :=
  match e.fold expr with
  | .ok (.number k) => k.toInt?
  | _ => none

/-- The exact exponent vector of a tree: that of the unit for a name, zero for a number, and for a
    power the vector of the base times the exponent's value. -/
def vector? (e : Evaluator) : Expr → Option ExponentVector
  | .name name _ =>
    match (e.resolve? name).map Resolution.unit with
    | some (.ok u) => some u.dimension.exponent
    | _ => none
  | .number _ _ => some .zero
  | .neg operand _ =>
    match e.vector? operand with
    | some v => if v.same .zero then some .zero else none
    | none => none
  | .binary .pow base exponent _ =>
    match e.vector? base, e.wholeValue? exponent with
    | some v, some n => some fun q => v q * n
    | _, _ => none
  | .binary op left right _ =>
    match e.vector? left, e.vector? right with
    | some v, some w => ExponentVector.combine? op v w
    | _, _ => none

/-- Either the exact vector of a tree cannot be represented, or the tree is a power whose exponent
    does not fit 32 bits with a sign. -/
def LeavesRange (e : Evaluator) (expr : Expr) : Prop :=
  (∃ v, e.vector? expr = some v ∧ ¬v.InRange) ∨
    ∃ base exponent span n, expr = .binary .pow base exponent span ∧
      e.wholeValue? exponent = some n ∧ ¬(-(2 ^ 31) ≤ n ∧ n < 2 ^ 31)

end Evaluator

theorem MeasureUnit.exponent_one : MeasureUnit.one.dimension.exponent = ExponentVector.zero := by
  funext q
  cases q <;> rfl

/-! ### Operations on operands -/

namespace Operand

variable {span exponentSpan : Span} {left right o : Operand}

/-- The exponents of an operand; a number has none. -/
def exponent : Operand → ExponentVector
  | number _ => .zero
  | unit u => u.dimension.exponent

/-- A number as a unit has no exponents either. -/
theorem exponent_of_toUnit {u : MeasureUnit} (h : o.toUnit span = .ok u) :
    u.dimension.exponent = o.exponent := by
  cases o with
  | number k =>
      obtain ⟨_, same, _⟩ := MeasureUnit.checkedScale_eq_ok_iff.1 (located_eq_ok_iff.1 h)
      rw [same, MeasureUnit.exponent_one]
      rfl
  | unit v =>
      cases h
      rfl

theorem toUnit_ne_overflow (o : Operand) (span at_ : Span) :
    o.toUnit span ≠ .error (.exponentOverflow at_) := by
  intro h
  cases o with
  | number k => exact MeasureUnit.checkedScale_ne_overflow _ _ (located_eq_overflow_iff.1 h).1
  | unit v => cases h

/-! ### Sums -/

theorem exponent_of_combineTerms {operator : Formula.TermOperator}
    (h : combineTerms operator span left right = .ok o) :
    left.exponent = right.exponent ∧ o.exponent = left.exponent := by
  obtain ⟨u, leftUnit, rest⟩ := bind_eq_ok_iff.1 h
  obtain ⟨v, rightUnit, compared⟩ := bind_eq_ok_iff.1 rest
  split at compared
  · next equal =>
      cases compared
      rw [← exponent_of_toUnit leftUnit, ← exponent_of_toUnit rightUnit,
        MeasureUnit.sameAs_iff.1 equal]
      exact ⟨rfl, rfl⟩
  · cases compared

theorem combineTerms_ne_overflow {operator : Formula.TermOperator} {at_ : Span} :
    combineTerms operator span left right ≠ .error (.exponentOverflow at_) := by
  intro h
  rcases bind_eq_error_iff.1 h with failed | ⟨u, _, rest⟩
  · exact toUnit_ne_overflow _ _ _ failed
  · rcases bind_eq_error_iff.1 rest with failed | ⟨v, _, compared⟩
    · exact toUnit_ne_overflow _ _ _ failed
    · split at compared <;> cases compared

/-- A sum has the one vector of both of its sides. -/
theorem exponent_of_combine {operator : Formula.TermOperator}
    (h : combine operator span left right = .ok o) :
    (if left.exponent.same right.exponent then some left.exponent else none) =
      some o.exponent := by
  rcases combine_cases operator left right with ⟨a, b, rfl, rfl⟩ | combined
  · cases h
    rfl
  · rw [combined] at h
    obtain ⟨equal, same⟩ := exponent_of_combineTerms h
    rw [if_pos (ExponentVector.same_iff.2 equal), same]

theorem combine_ne_overflow {operator : Formula.TermOperator} {at_ : Span} :
    combine operator span left right ≠ .error (.exponentOverflow at_) := by
  rcases combine_cases operator left right with ⟨a, b, rfl, rfl⟩ | combined
  · intro h
    cases h
  · rw [combined]
    exact combineTerms_ne_overflow

/-! ### Products and quotients -/

/-- The result has the vector, and is an overflow only if the vector cannot be represented. -/
def HasVector (v : ExponentVector) (result : Except Error Operand) : Prop :=
  (∀ o, result = .ok o → o.exponent = v) ∧
    ∀ at_, result = .error (.exponentOverflow at_) → ¬v.InRange

theorem hasVector_number (k : Double) : HasVector .zero (.ok (number k)) := by
  constructor
  · intro o h
    cases h
    rfl
  · intro at_ h
    cases h

/-- A scaled unit keeps its vector. -/
theorem hasVector_scale (span : Span) (u : MeasureUnit) (k : Double) :
    HasVector u.dimension.exponent (Operand.unit <$> located span (u.checkedScale k)) := by
  constructor
  · intro o h
    obtain ⟨scaled, located, rfl⟩ := unit_map_eq_ok_iff.1 h
    obtain ⟨_, same, _⟩ := MeasureUnit.checkedScale_eq_ok_iff.1 (located_eq_ok_iff.1 located)
    rw [exponent, same]
  · intro at_ h
    have failed := (located_eq_overflow_iff.1 (unit_map_eq_error_iff.1 h)).1
    exact absurd failed (MeasureUnit.checkedScale_ne_overflow u k)

/-- A unit made of a vector has this vector. -/
theorem hasVector_checkedUnit (span : Span) (v : ExponentVector) (factor : Double) :
    HasVector v (Operand.unit <$> located span (MeasureUnit.checkedUnit v factor)) := by
  constructor
  · intro o h
    obtain ⟨made, located, rfl⟩ := unit_map_eq_ok_iff.1 h
    exact (MeasureUnit.checkedUnit_eq_ok_iff.1 (located_eq_ok_iff.1 located)).1
  · intro at_ h
    have failed := (located_eq_overflow_iff.1 (unit_map_eq_error_iff.1 h)).1
    exact MeasureUnit.checkedUnit_eq_overflow_iff.1 failed

theorem hasVector_mul (span : Span) (left right : Operand) :
    HasVector (fun q => left.exponent q + right.exponent q) (mul span left right) := by
  cases left with
  | number a =>
      cases right with
      | number b => exact hasVector_number (a * b)
      | unit v =>
          have same : (fun q => ExponentVector.zero q + v.dimension.exponent q) =
              v.dimension.exponent := funext fun q => Int.zero_add _
          simp only [exponent, same]
          exact hasVector_scale span v a
  | unit u =>
      cases right with
      | number b =>
          have same : (fun q => u.dimension.exponent q + ExponentVector.zero q) =
              u.dimension.exponent := funext fun q => Int.add_zero _
          simp only [exponent, same]
          exact hasVector_scale span u b
      | unit v =>
          simp only [mul, MeasureUnit.checkedMultiply_eq]
          exact hasVector_checkedUnit span _ _

/-- The reciprocal of a unit, scaled. -/
theorem hasVector_reciprocal (span : Span) (u : MeasureUnit) (k : Double) :
    HasVector (fun q => ExponentVector.zero q - u.dimension.exponent q)
      (Operand.unit <$> located span
        ((MeasureUnit.one.checkedDivide u).bind fun inverse => inverse.checkedScale k)) := by
  rw [MeasureUnit.checkedDivide_eq, MeasureUnit.exponent_one]
  constructor
  · intro o h
    obtain ⟨made, located, rfl⟩ := unit_map_eq_ok_iff.1 h
    obtain ⟨inverse, divided, scaled⟩ := bind_eq_ok_iff.1 (located_eq_ok_iff.1 located)
    obtain ⟨_, same, _⟩ := MeasureUnit.checkedScale_eq_ok_iff.1 scaled
    rw [exponent, same, (MeasureUnit.checkedUnit_eq_ok_iff.1 divided).1]
  · intro at_ h
    have failed := (located_eq_overflow_iff.1 (unit_map_eq_error_iff.1 h)).1
    rcases bind_eq_error_iff.1 failed with divided | ⟨inverse, _, scaled⟩
    · exact MeasureUnit.checkedUnit_eq_overflow_iff.1 divided
    · exact absurd scaled (MeasureUnit.checkedScale_ne_overflow inverse k)

theorem hasVector_div (span : Span) (left right : Operand) :
    HasVector (fun q => left.exponent q - right.exponent q) (div span left right) := by
  cases left with
  | number a =>
      cases right with
      | number b => exact hasVector_number (a / b)
      | unit v => exact hasVector_reciprocal span v a
  | unit u =>
      cases right with
      | number b =>
          have same : (fun q => u.dimension.exponent q - ExponentVector.zero q) =
              u.dimension.exponent := funext fun q => Int.sub_zero _
          simp only [exponent, same]
          exact hasVector_scale span u _
      | unit v =>
          simp only [div, MeasureUnit.checkedDivide_eq]
          exact hasVector_checkedUnit span _ _

/-! ### Powers -/

/-- The exponent of a power that has a result. -/
theorem exponent_of_pow (h : pow exponentSpan span left right = .ok o) :
    ∃ k n, right = number k ∧ k.toInt? = some n ∧ o.exponent = fun q => left.exponent q * n := by
  obtain ⟨f, outcome, same⟩ := pow_outcome left right
  rw [same] at h
  cases outcome with
  | badExponent found => cases h
  | largeExponent whole large => cases h
  | @ofNumber a k n whole =>
      cases h
      exact ⟨k, n, rfl, whole, funext fun q => (Int.zero_mul n).symm⟩
  | @ofUnit u k n whole =>
      rw [MeasureUnit.checkedRaise_eq] at h
      exact ⟨k, n, rfl, whole, (hasVector_checkedUnit span _ _).1 o h⟩

theorem not_inRange_of_pow {at_ : Span}
    (h : pow exponentSpan span left right = .error (.exponentOverflow at_)) :
    ∃ k n, right = number k ∧ k.toInt? = some n ∧
      (Literal.exponentInRange n = false ∨
        ¬ExponentVector.InRange fun q => left.exponent q * n) := by
  obtain ⟨f, outcome, same⟩ := pow_outcome left right
  rw [same] at h
  cases outcome with
  | badExponent found => cases h
  | @largeExponent left k n whole large => exact ⟨k, n, rfl, whole, .inl large⟩
  | ofNumber whole => cases h
  | @ofUnit u k n whole =>
      rw [MeasureUnit.checkedRaise_eq] at h
      exact ⟨k, n, rfl, whole, .inr ((hasVector_checkedUnit span _ _).2 at_ h)⟩

/-! ### Operators other than powers -/

theorem combine?_of_apply {op : Operator} (plain : op ≠ .pow)
    (h : apply op exponentSpan span left right = .ok o) :
    ExponentVector.combine? op left.exponent right.exponent = some o.exponent := by
  cases op with
  | add => exact exponent_of_combine h
  | sub => exact exponent_of_combine h
  | mul => exact congrArg some ((hasVector_mul span left right).1 o h).symm
  | div => exact congrArg some ((hasVector_div span left right).1 o h).symm
  | pow => exact absurd rfl plain

/-- Where an operator overflows, the exact vector cannot be represented. -/
theorem not_inRange_of_apply {op : Operator} {at_ : Span} (plain : op ≠ .pow)
    (h : apply op exponentSpan span left right = .error (.exponentOverflow at_)) :
    ∃ v, ExponentVector.combine? op left.exponent right.exponent = some v ∧ ¬v.InRange := by
  cases op with
  | add => exact absurd h combine_ne_overflow
  | sub => exact absurd h combine_ne_overflow
  | mul => exact ⟨_, rfl, (hasVector_mul span left right).2 at_ h⟩
  | div => exact ⟨_, rfl, (hasVector_div span left right).2 at_ h⟩
  | pow => exact absurd rfl plain

theorem negate_ne_overflow (o : Operand) (span at_ : Span) :
    o.negate span ≠ .error (.exponentOverflow at_) := by
  cases o <;> simp [negate]

end Operand

/-! ### Trees -/

namespace Evaluator

variable {e : Evaluator}

theorem vector?_binary {op : Operator} (plain : op ≠ .pow) {left right : Expr} {span : Span}
    {v w : ExponentVector} (hv : e.vector? left = some v) (hw : e.vector? right = some w) :
    e.vector? (.binary op left right span) = ExponentVector.combine? op v w := by
  cases op with
  | pow => exact absurd rfl plain
  | _ => simp only [vector?, hv, hw]

theorem vector?_pow {base exponent : Expr} {span : Span} {v : ExponentVector} {n : Int}
    (hv : e.vector? base = some v) (hn : e.wholeValue? exponent = some n) :
    e.vector? (.binary .pow base exponent span) = some fun q => v q * n := by
  simp only [vector?, hv, hn]

theorem wholeValue?_of_fold {expr : Expr} {k : Double} {n : Int}
    (folded : e.fold expr = .ok (.number k)) (whole : k.toInt? = some n) :
    e.wholeValue? expr = some n := by
  simp only [wholeValue?, folded, whole]

/-- What a tree denotes has the exact vector of the tree. -/
theorem vector?_eq_of_fold {expr : Expr} {o : Operand} (h : e.fold expr = .ok o) :
    e.vector? expr = some o.exponent := by
  induction expr generalizing o with
  | name text span =>
      obtain ⟨resolution, u, resolved, made, rfl⟩ := fold_name_eq_ok_iff.1 h
      simp only [vector?, resolved, Option.map_some, made, Operand.exponent]
  | number value span =>
      cases h
      rfl
  | neg operand span ih =>
      rw [fold_neg] at h
      obtain ⟨inner, folded, negated⟩ := bind_eq_ok_iff.1 h
      obtain ⟨k, rfl, rfl⟩ := Operand.negate_eq_ok_iff.1 (mapError_eq_ok_iff.1 negated)
      simp only [vector?, ih folded]
      rfl
  | binary op left right span ihLeft ihRight =>
      rw [fold_binary] at h
      obtain ⟨l, foldedLeft, rest⟩ := bind_eq_ok_iff.1 h
      obtain ⟨r, foldedRight, applied⟩ := bind_eq_ok_iff.1 rest
      have result := mapError_eq_ok_iff.1 applied
      by_cases plain : op ≠ .pow
      · rw [vector?_binary plain (ihLeft foldedLeft) (ihRight foldedRight)]
        exact Operand.combine?_of_apply plain result
      · obtain rfl := Decidable.not_not.1 plain
        obtain ⟨k, n, rfl, whole, same⟩ := Operand.exponent_of_pow result
        rw [vector?_pow (ihLeft foldedLeft) (wholeValue?_of_fold foldedRight whole), same]

/-- A tree that raises an overflow leaves the range: its operands have their exact vectors. -/
theorem Raises.leavesRange {expr : Expr} {at_ : Span}
    (h : e.Raises (.exponentOverflow at_) expr) : e.LeavesRange expr := by
  cases h with
  | name _ same => cases same
  | @neg _ span value _ failed => exact absurd failed (value.negate_ne_overflow span at_)
  | @binary op left right span _ _ foldedLeft foldedRight failed =>
      by_cases plain : op ≠ .pow
      · obtain ⟨v, combined, outside⟩ := Operand.not_inRange_of_apply plain failed
        refine .inl ⟨v, ?_, outside⟩
        rw [vector?_binary plain (vector?_eq_of_fold foldedLeft) (vector?_eq_of_fold foldedRight)]
        exact combined
      · obtain rfl := Decidable.not_not.1 plain
        obtain ⟨k, n, rfl, whole, tooLarge | outside⟩ := Operand.not_inRange_of_pow failed
        · exact .inr ⟨left, right, span, n, rfl, wholeValue?_of_fold foldedRight whole,
            of_decide_eq_false tooLarge⟩
        · exact .inl ⟨_, vector?_pow (vector?_eq_of_fold foldedLeft)
            (wholeValue?_of_fold foldedRight whole), outside⟩

/-- Where the fold reports an overflow, some subexpression leaves the range. -/
theorem leavesRange_of_fold {expr : Expr} {at_ : Span}
    (h : e.fold expr = .error (.error (.exponentOverflow at_))) :
    ∃ sub ∈ expr.subexpressions, e.LeavesRange sub := by
  obtain ⟨sub, mem, raises⟩ := exists_raises_of_fold h
  exact ⟨sub, mem, raises.leavesRange⟩

/-- A formula that denotes a unit has a tree whose exact exponent vector is the unit's; and an
    overflow of exponents is reported only where a subexpression of the tree leaves the range of
    exponents, or a power the range of 32 bits with a sign. -/
theorem evaluate_dimension (e : Evaluator) (formula : String) :
    (∀ u, e.evaluate formula = .ok u →
      ∃ expr v, Expr.parse formula = .ok expr ∧ e.vector? expr = some v ∧
        ∀ q, u.dimension.exponent q = v q) ∧
      ∀ at_, e.evaluate formula = .error (.error (.exponentOverflow at_)) →
        ∃ expr, Expr.parse formula = .ok expr ∧
          ∃ sub ∈ expr.subexpressions, e.LeavesRange sub := by
  constructor
  · intro u h
    obtain ⟨expr, o, parsed, folded, same⟩ := evaluate_eq_ok_iff.1 h
    refine ⟨expr, o.exponent, parsed, vector?_eq_of_fold folded, fun q => ?_⟩
    rw [Operand.exponent_of_toUnit same]
  · intro at_ h
    rcases evaluate_eq_error_iff.1 h with ⟨cause, failed, same⟩ | ⟨expr, parsed, outcome⟩
    · cases same
      exact absurd (Formula.isSyntax_of_parse failed) (by simp [Error.isSyntax])
    · refine ⟨expr, parsed, ?_⟩
      rcases outcome with failed | ⟨o, cause, _, converted, same⟩
      · exact leavesRange_of_fold failed
      · cases same
        exact absurd converted (o.toUnit_ne_overflow expr.span at_)

/-- Metres per square second, and a power of the metre that no dimension has. -/
theorem evaluate_dimension_acceleration :
    (∃ expr v, Expr.parse "m/s^2" = .ok expr ∧ (ofTable .defaults).vector? expr = some v ∧
        v .length = 1 ∧ v .time = -2) ∧
      ∃ expr, Expr.parse "m^200" = .ok expr ∧
        ∃ sub ∈ expr.subexpressions, (ofTable .defaults).LeavesRange sub := by
  have lexedQuotient : Token.lex "m/s^2" =
      .ok [⟨.name, ⟨0, 1⟩, "m"⟩, ⟨.slash, ⟨1, 2⟩, "/"⟩, ⟨.name, ⟨2, 3⟩, "s"⟩,
        ⟨.caret, ⟨3, 4⟩, "^"⟩, ⟨.number, ⟨4, 5⟩, "2"⟩, ⟨.finish, .point 5, ""⟩] := by
    decide +kernel
  have two : Literal.read "2" = .ok (.whole 2) := by decide +kernel
  have quotient : Expr.parse "m/s^2" = .ok (.binary .div (.name "m" ⟨0, 1⟩)
      (.binary .pow (.name "s" ⟨2, 3⟩) (.number (.whole 2) ⟨4, 5⟩) ⟨2, 5⟩) ⟨0, 5⟩) := by
    refine parse_of_reads lexedQuotient (.level (.name rfl) (.step rfl (by decide)
      (.power (Nat.le_refl 3) rfl rfl rfl two rfl) (.stop ?_))) (by simp)
    exact stops_of_no_operator rfl 1 []
  have acceleration : (ofTable .defaults).evaluate "m/s^2" =
      .ok (.base (.ofList 1 (-2) 0 0 0)) := by
    rw [evaluate_eq_of_parse quotient]
    decide +kernel
  have lexedPower : Token.lex "m^200" =
      .ok [⟨.name, ⟨0, 1⟩, "m"⟩, ⟨.caret, ⟨1, 2⟩, "^"⟩, ⟨.number, ⟨2, 5⟩, "200"⟩,
        ⟨.finish, .point 5, ""⟩] := by
    decide +kernel
  have twoHundred : Literal.read "200" = .ok (.whole 200) := by decide +kernel
  have power : Expr.parse "m^200" =
      .ok (.binary .pow (.name "m" ⟨0, 1⟩) (.number (.whole 200) ⟨2, 5⟩) ⟨0, 5⟩) :=
    parse_of_reads lexedPower (.power (by decide) rfl rfl rfl twoHundred rfl) (by simp)
  have overflow : (ofTable .defaults).evaluate "m^200" =
      .error (.error (.exponentOverflow ⟨0, 5⟩)) := by
    rw [evaluate_eq_of_parse power]
    decide +kernel
  obtain ⟨expr, v, parsed, exact, same⟩ :=
    (evaluate_dimension (ofTable .defaults) "m/s^2").1 _ acceleration
  exact ⟨⟨expr, v, parsed, exact, (same .length).symm, (same .time).symm⟩,
    (evaluate_dimension (ofTable .defaults) "m^200").2 _ overflow⟩

end Evaluator

end Metrology
