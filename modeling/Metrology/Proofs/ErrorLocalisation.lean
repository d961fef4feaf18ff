/-
Module: Metrology.Proofs.ErrorLocalisation
Layer: Proofs
Purpose: Reported ranges show their errors by themselves. An operation uses the range it is given
  only to say where it failed, so a tree at another place denotes the same, with its errors moved
  along. An error is about the range of the subexpression it was raised at, unless it is about the
  exponent of one; so the text in the range, evaluated alone, fails in the same way. An exponent is
  the exception: alone, it is a formula of its own that may well denote a unit.
Imports: Metrology.Proofs.EvaluatorFold, Metrology.Proofs.OperandOutcomes,
  Metrology.Proofs.SpanFaithfulness
Main exports: Error.withSpan, Error.mapOffsets, Failure.map, Operand.Reports, Operand.apply_cases,
  Evaluator.fold_mapOffsets, Evaluator.exists_subexpression_of_error,
  Evaluator.evaluate_slice_of_error
-/
import Metrology.Proofs.EvaluatorFold
import Metrology.Proofs.OperandOutcomes
import Metrology.Proofs.SpanFaithfulness

namespace Metrology

open Formula (Error Expr Operator)

/-! ### Errors at another place -/

namespace Formula.Error

/-- The same error about another range. -/
def withSpan : Error → Span → Error
  | unresolvedIdentifier name _, span => unresolvedIdentifier name span
  | malformedLiteral text defect _, span => malformedLiteral text defect span
  | nonIntegerExponent found _, span => nonIntegerExponent found span
  | mismatchedTerms operator left right _, span => mismatchedTerms operator left right span
  | invalidScale _, span => invalidScale span
  | negatedUnit _, span => negatedUnit span
  | exponentOverflow _, span => exponentOverflow span
  | unexpectedCharacter found _, span => unexpectedCharacter found span
  | unexpectedToken expected found _, span => unexpectedToken expected found span
  | unexpectedEnd expected _, span => unexpectedEnd expected span

@[simp] theorem span_withSpan (err : Error) (span : Span) : (err.withSpan span).span = span := by
  cases err <;> rfl

/-- The error of the same formula at another place. -/
def mapOffsets (move : Nat → Nat) (err : Error) : Error :=
  err.withSpan (err.span.mapOffsets move)

end Formula.Error

/-- The failure with its error changed; a fault stays as it is. -/
def Failure.map {ε φ : Type} (f : ε → φ) : Failure ε → Failure φ
  | error e => error (f e)
  | fault f => fault f

/-! ### Operations and ranges -/

namespace Operand

variable {α β : Type} {f : Span → Except Error α} {move : Nat → Nat}

/-- The computation uses its range for nothing but its errors. -/
def Reports (f : Span → Except Error α) : Prop :=
  ∀ span span', f span' = (f span).mapError (·.withSpan span')

theorem Reports.ok (a : α) : Reports fun _ => .ok a := fun _ _ => rfl

theorem Reports.error (err : Error) :
    Reports fun span => (.error (err.withSpan span) : Except Error α) := by
  intro span span'
  cases err <;> rfl

theorem Reports.bind {g : α → Span → Except Error β} (h : Reports f) (h' : ∀ a, Reports (g a)) :
    Reports fun span => (f span).bind fun a => g a span := by
  intro span span'
  simp only [h span span']
  cases f span with
  | error err => rfl
  | ok a => exact h' a span span'

theorem Reports.map (h : Reports f) (g : α → β) : Reports fun span => g <$> f span := by
  intro span span'
  simp only [h span span']
  cases f span <;> rfl

/-- An error of such a computation is about its range. -/
theorem Reports.span_eq {span : Span} {err : Error} (h : Reports f)
    (failed : f span = .error err) : err.span = span := by
  have same := h span span
  rw [failed, mapError_error] at same
  rw [Except.error.inj same, Error.span_withSpan]

theorem Reports.mapOffsets (h : Reports f) (span : Span) :
    f (span.mapOffsets move) = (f span).mapError (Error.mapOffsets move) := by
  rw [h span]
  cases result : f span with
  | ok a => rfl
  | error err => rw [mapError_error, mapError_error, Error.mapOffsets, h.span_eq result]

theorem reports_located (result : Except AlgebraError MeasureUnit) :
    Reports fun span => located span result := by
  intro span span'
  cases result with
  | ok u => rfl
  | error cause => cases cause <;> rfl

theorem reports_toUnit (o : Operand) : Reports fun span => o.toUnit span := by
  cases o with
  | number k => exact reports_located _
  | unit u => exact .ok u

theorem reports_negate (o : Operand) : Reports fun span => o.negate span := by
  cases o with
  | number k => exact .ok _
  | unit u => exact .error (.negatedUnit ⟨0, 0⟩)

theorem reports_combineTerms (operator : Formula.TermOperator) (left right : Operand) :
    Reports fun span => combineTerms operator span left right := by
  refine .bind (reports_toUnit left) fun u => .bind (reports_toUnit right) fun v => ?_
  by_cases same : u.sameAs v = true
  · simp only [same, if_true]
    exact .ok _
  · simp only [same]
    exact .error (.mismatchedTerms operator u v ⟨0, 0⟩)

/-- The exponent's range is used for a bad exponent only, and the other range for the other errors
    only. -/
theorem apply_cases (op : Operator) (left right : Operand) :
    (∃ found, ∀ exponentSpan span,
      apply op exponentSpan span left right = .error (.nonIntegerExponent found exponentSpan)) ∨
    ∃ f, Reports f ∧ ∀ exponentSpan span, apply op exponentSpan span left right = f span := by
  obtain ⟨f, outcome, same⟩ := apply_outcome op left right
  cases outcome with
  | number k => exact .inr ⟨_, .ok (number k), same⟩
  | made result => exact .inr ⟨_, (reports_located result).map unit, same⟩
  | terms operator => exact .inr ⟨_, reports_combineTerms operator left right, same⟩
  | badExponent found => exact .inl ⟨found, same⟩
  | largeExponent => exact .inr ⟨_, .error (.exponentOverflow ⟨0, 0⟩), same⟩

theorem apply_mapOffsets (op : Operator) (exponentSpan span : Span) (left right : Operand) :
    apply op (exponentSpan.mapOffsets move) (span.mapOffsets move) left right =
      (apply op exponentSpan span left right).mapError (Error.mapOffsets move) := by
  rcases apply_cases op left right with ⟨found, fails⟩ | ⟨f, reports, same⟩
  · rw [fails, fails]
    rfl
  · rw [same, same, reports.mapOffsets]

/-- An error of an operator is about the operation or about its exponent. -/
theorem span_of_apply {op : Operator} {exponentSpan span : Span} {left right : Operand}
    {err : Error} (failed : apply op exponentSpan span left right = .error err) :
    err.span = span ∨ ∃ found, err = .nonIntegerExponent found exponentSpan := by
  rcases apply_cases op left right with ⟨found, fails⟩ | ⟨f, reports, same⟩
  · rw [fails] at failed
    exact .inr ⟨found, (Except.error.inj failed).symm⟩
  · rw [same] at failed
    exact .inl (reports.span_eq failed)

end Operand

namespace Evaluator

variable {e : Evaluator} {move : Nat → Nat}

/-! ### Trees at another place -/

/-- A tree at another place denotes the same, and its errors are moved along. -/
theorem fold_mapOffsets (expr : Expr) :
    e.fold (expr.mapOffsets move) =
      (e.fold expr).mapError (Failure.map (Error.mapOffsets move)) := by
  induction expr with
  | name text span =>
      rw [Expr.mapOffsets, fold, fold]
      cases e.resolve? text with
      | none => rfl
      | some resolution => cases h : resolution.unit <;> simp [h, Failure.map]
  | number value span => rfl
  | neg operand span ih =>
      rw [Expr.mapOffsets, fold_neg, fold_neg, ih]
      cases e.fold operand with
      | error failure => rfl
      | ok value =>
          simp only [mapError_ok, Except.bind, (Operand.reports_negate value).mapOffsets]
          cases value.negate span <;> rfl
  | binary op left right span ihLeft ihRight =>
      rw [Expr.mapOffsets, fold_binary, fold_binary, ihLeft, ihRight, Expr.span_mapOffsets]
      cases e.fold left with
      | error failure => rfl
      | ok l =>
          cases e.fold right with
          | error failure => rfl
          | ok r =>
              simp only [mapError_ok, Except.bind, Operand.apply_mapOffsets]
              cases Operand.apply op right.span span l r <;> rfl

theorem evaluateExpr_mapOffsets (expr : Expr) :
    e.evaluateExpr (expr.mapOffsets move) =
      (e.evaluateExpr expr).mapError (Failure.map (Error.mapOffsets move)) := by
  rw [evaluateExpr_eq, evaluateExpr_eq, fold_mapOffsets, Expr.span_mapOffsets]
  cases e.fold expr with
  | error failure => rfl
  | ok o =>
      simp only [mapError_ok, Except.bind, (Operand.reports_toUnit o).mapOffsets]
      cases o.toUnit expr.span <;> rfl

/-! ### Where errors are raised -/

/-- The error is about the range of the tree, unless it is about an exponent. -/
def IsAbout (err : Error) (expr : Expr) : Prop :=
  err.span = expr.span ∨ ∃ found span, err = .nonIntegerExponent found span

/-- A tree that raises an error is what the error is about. -/
theorem Raises.isAbout {expr : Expr} {err : Error} (h : e.Raises err expr) : IsAbout err expr := by
  cases h with
  | name _ same => exact .inl (congrArg Error.span same)
  | neg _ failed => exact .inl ((Operand.reports_negate _).span_eq failed)
  | binary _ _ failed =>
      rcases Operand.span_of_apply failed with about | ⟨found, exponent⟩
      · exact .inl about
      · exact .inr ⟨found, _, exponent⟩

/-- An error of a tree is one of a subexpression that the error is about. -/
theorem exists_subexpression_of_fold_error {expr : Expr} {err : Error}
    (failed : e.fold expr = .error (.error err)) :
    ∃ n ∈ expr.subexpressions, e.fold n = .error (.error err) ∧ IsAbout err n := by
  obtain ⟨n, mem, raises⟩ := exists_raises_of_fold failed
  exact ⟨n, mem, raises.fold_eq, raises.isAbout⟩

/-- So is an error of the last step, which makes a unit of a number. -/
theorem exists_subexpression_of_error {expr : Expr} {err : Error}
    (failed : e.evaluateExpr expr = .error (.error err)) :
    ∃ n ∈ expr.subexpressions, e.evaluateExpr n = .error (.error err) ∧ IsAbout err n := by
  have whole := failed
  rw [evaluateExpr_eq] at failed
  rcases bind_eq_error_iff.1 failed with inner | ⟨o, _, made⟩
  · obtain ⟨n, mem, raised, about⟩ := exists_subexpression_of_fold_error inner
    refine ⟨n, mem, ?_, about⟩
    rw [evaluateExpr_eq, raised]
    rfl
  · obtain ⟨cause, raised, same⟩ := mapError_eq_error_iff.1 made
    cases same
    exact ⟨expr, expr.self_mem_subexpressions, whole,
      .inl ((Operand.reports_toUnit o).span_eq raised)⟩

/-! ### The text in a reported range -/

/-- The range that an error is about cuts a part out of the formula that fails alone in the same
    way, with all of its text as the range. Bad exponents are left out. -/
theorem evaluate_slice_of_error {formula : String} {expr : Expr} {err : Error}
    (parsed : Expr.parse formula = .ok expr) (failed : e.evaluate formula = .error (.error err))
    (other : ∀ found span, err ≠ .nonIntegerExponent found span) :
    ∃ text, err.span.slice? formula = some text ∧
      e.evaluate text = .error (.error (err.withSpan ⟨0, err.span.length⟩)) := by
  rw [evaluate_eq_of_parse parsed] at failed
  obtain ⟨n, node, raised, about | ⟨found, span, exponent⟩⟩ :=
    exists_subexpression_of_error failed
  · obtain ⟨part, text, stands, slice, scans⟩ := Formula.exists_slice_of_parse parsed node
    refine ⟨text, about ▸ slice, ?_⟩
    have moved : n.span.mapOffsets (· - n.span.start) = ⟨0, n.span.length⟩ := by
      simp [Span.mapOffsets, Span.length]
    rw [evaluate_eq_of_parse (stands.parse scans).1, evaluateExpr_mapOffsets, raised,
      mapError_error, Failure.map, Error.mapOffsets, about, moved]
  · exact absurd exponent (other found span)

/-- The parenthesised sum of a quotient. -/
theorem evaluate_slice_of_error_sum :
    ∃ expr, Expr.parse "s / (m + s)" = .ok expr ∧
      (ofTable .defaults).evaluate "s / (m + s)" = .error (.error
        (.mismatchedTerms .add CatalogUnit.meter.unit CatalogUnit.second.unit ⟨4, 11⟩)) ∧
      Span.slice? ⟨4, 11⟩ "s / (m + s)" = some "(m + s)" ∧
      (ofTable .defaults).evaluate "(m + s)" = .error (.error
        (.mismatchedTerms .add CatalogUnit.meter.unit CatalogUnit.second.unit ⟨0, 7⟩)) := by
  have lexed : Formula.Token.lex "s / (m + s)" =
      .ok [⟨.name, ⟨0, 1⟩, "s"⟩, ⟨.slash, ⟨2, 3⟩, "/"⟩, ⟨.leftParen, ⟨4, 5⟩, "("⟩,
        ⟨.name, ⟨5, 6⟩, "m"⟩, ⟨.plus, ⟨7, 8⟩, "+"⟩, ⟨.name, ⟨9, 10⟩, "s"⟩,
        ⟨.rightParen, ⟨10, 11⟩, ")"⟩, ⟨.finish, .point 11, ""⟩] := by
    decide +kernel
  have parsed : Expr.parse "s / (m + s)" = .ok (.binary .div (.name "s" ⟨0, 1⟩)
      (.binary .add (.name "m" ⟨5, 6⟩) (.name "s" ⟨9, 10⟩) ⟨4, 11⟩) ⟨0, 11⟩) := by
    have closes := @Formula.stops_of_no_operator ⟨.rightParen, ⟨10, 11⟩, ")"⟩ rfl
    have ends := @Formula.stops_of_no_operator ⟨.finish, .point 11, ""⟩ rfl
    have sum (rest : List Formula.Token) : Formula.Reads (.level 1)
        (⟨.name, ⟨5, 6⟩, "m"⟩ :: ⟨.plus, ⟨7, 8⟩, "+"⟩ :: ⟨.name, ⟨9, 10⟩, "s"⟩ ::
          ⟨.rightParen, ⟨10, 11⟩, ")"⟩ :: rest)
        (.binary .add (.name "m" ⟨5, 6⟩) (.name "s" ⟨9, 10⟩) ⟨5, 10⟩)
        (⟨.rightParen, ⟨10, 11⟩, ")"⟩ :: rest) :=
      .level (.name rfl)
        (.step rfl (by decide) (.level (.name rfl) (.stop (closes 2 rest)))
          (.stop (closes 1 rest)))
    apply Formula.parse_of_reads lexed
    · apply Formula.Reads.level (.name rfl)
      exact .step rfl (by decide) (.level (.group rfl rfl (sum _)) (.stop (ends 3 [])))
        (.stop (ends 1 []))
    · simp
  have failed : (ofTable .defaults).evaluate "s / (m + s)" = .error (.error
      (.mismatchedTerms .add CatalogUnit.meter.unit CatalogUnit.second.unit ⟨4, 11⟩)) := by
    rw [evaluate_eq_of_parse parsed]
    decide +kernel
  obtain ⟨text, slice, alone⟩ := evaluate_slice_of_error parsed failed (by simp)
  have part : Span.slice? ⟨4, 11⟩ "s / (m + s)" = some "(m + s)" := by decide +kernel
  obtain rfl : "(m + s)" = text := Option.some.inj (part.symm.trans slice)
  exact ⟨_, parsed, failed, part, alone⟩

end Evaluator

end Metrology
