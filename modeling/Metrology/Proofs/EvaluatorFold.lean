/-
Module: Metrology.Proofs.EvaluatorFold
Layer: Proofs
Purpose: The fold of a tree as composed computations: the operands from left to right, and then the
  operation. Proofs about evaluation open a tree with these equations and never look into the fold;
  proofs about its errors start at the subexpression that raises one.
Imports: Metrology.Evaluator, Metrology.Proofs.FormulaShape, Metrology.Proofs.Outcome
Main exports: Evaluator.fold_binary, Evaluator.fold_name_eq_fault_iff, Evaluator.Raises,
  Evaluator.exists_raises_of_fold, Evaluator.evaluate_eq_ok_iff, Evaluator.evaluate_eq_error_iff
-/
import Metrology.Evaluator
import Metrology.Proofs.FormulaShape
import Metrology.Proofs.Outcome

namespace Metrology

namespace Evaluator

open Formula (Error Expr Operator)

variable {e : Evaluator}

/-! ### Trees -/

theorem fold_neg (operand : Expr) (span : Span) :
    e.fold (.neg operand span) =
      (e.fold operand).bind fun value => (value.negate span).mapError .error := by
  rw [fold]
  cases e.fold operand <;> rfl

theorem fold_binary (op : Operator) (left right : Expr) (span : Span) :
    e.fold (.binary op left right span) =
      (e.fold left).bind fun l => (e.fold right).bind fun r =>
        (Operand.apply op right.span span l r).mapError .error := by
  rw [fold]
  cases e.fold left with
  | error failure => rfl
  | ok l => cases e.fold right <;> rfl

/-- A name that resolves to a unit denotes it. -/
theorem fold_name_eq_ok_iff {name : String} {span : Span} {o : Operand} :
    e.fold (.name name span) = .ok o ↔
      ∃ resolution u, e.resolve? name = some resolution ∧ resolution.unit = .ok u ∧
        o = .unit u := by
  rw [fold]
  cases e.resolve? name with
  | none => simp
  | some resolution =>
      cases found : resolution.unit with
      | ok u => simp [found, eq_comm]
      | error fault => simp [found]

/-- A name is at fault exactly when it resolves to a prefixed unit that cannot be made. -/
theorem fold_name_eq_fault_iff {name : String} {span : Span} {fault : Fault} :
    e.fold (.name name span) = .error (.fault fault) ↔
      ∃ resolution, e.resolve? name = some resolution ∧ resolution.unit = .error fault := by
  rw [fold]
  cases e.resolve? name with
  | none => simp
  | some resolution =>
      cases found : resolution.unit with
      | ok u => simp [found]
      | error other => simp [found]

/-- A name has a diagnosed error exactly when it stands for nothing. -/
theorem fold_name_eq_error_iff {name : String} {span : Span} {err : Error} :
    e.fold (.name name span) = .error (.error err) ↔
      e.resolve? name = none ∧ err = .unresolvedIdentifier name span := by
  rw [fold]
  cases e.resolve? name with
  | none => simp [eq_comm]
  | some resolution =>
      cases found : resolution.unit <;> simp [found]

/-! ### Where an error is raised -/

/-- The tree itself raises the error: it is a name that stands for nothing, or an operation whose
    operands denote something that it fails on. -/
inductive Raises (e : Evaluator) (err : Error) : Expr → Prop where
  | name {name : String} {span : Span} (unresolved : e.resolve? name = none)
      (same : err = .unresolvedIdentifier name span) : Raises e err (.name name span)
  | neg {operand : Expr} {span : Span} {value : Operand} (folded : e.fold operand = .ok value)
      (failed : value.negate span = .error err) : Raises e err (.neg operand span)
  | binary {op : Operator} {left right : Expr} {span : Span} {l r : Operand}
      (foldedLeft : e.fold left = .ok l) (foldedRight : e.fold right = .ok r)
      (failed : Operand.apply op right.span span l r = .error err) :
      Raises e err (.binary op left right span)

theorem Raises.fold_eq {expr : Expr} {err : Error} (h : e.Raises err expr) :
    e.fold expr = .error (.error err) := by
  cases h with
  | name unresolved same => exact fold_name_eq_error_iff.2 ⟨unresolved, same⟩
  | neg folded failed => rw [fold_neg, folded, Except.bind, failed, mapError_error]
  | binary foldedLeft foldedRight failed =>
      rw [fold_binary, foldedLeft, Except.bind, foldedRight, Except.bind, failed, mapError_error]

/-- The error of a tree is raised by one of its subexpressions. -/
theorem exists_raises_of_fold {expr : Expr} {err : Error}
    (failed : e.fold expr = .error (.error err)) : ∃ n ∈ expr.subexpressions, e.Raises err n := by
  induction expr with
  | name text span =>
      obtain ⟨unresolved, same⟩ := fold_name_eq_error_iff.1 failed
      exact ⟨_, Expr.self_mem_subexpressions _, .name unresolved same⟩
  | number value span => cases failed
  | neg operand span ih =>
      rw [fold_neg] at failed
      rcases bind_eq_error_iff.1 failed with inner | ⟨value, folded, negated⟩
      · obtain ⟨n, mem, raises⟩ := ih inner
        exact ⟨n, Expr.operand_subset mem, raises⟩
      · obtain ⟨cause, raised, same⟩ := mapError_eq_error_iff.1 negated
        cases same
        exact ⟨_, Expr.self_mem_subexpressions _, .neg folded raised⟩
  | binary op left right span ihLeft ihRight =>
      rw [fold_binary] at failed
      rcases bind_eq_error_iff.1 failed with inner | ⟨l, foldedLeft, rest⟩
      · obtain ⟨n, mem, raises⟩ := ihLeft inner
        exact ⟨n, Expr.left_subset mem, raises⟩
      rcases bind_eq_error_iff.1 rest with inner | ⟨r, foldedRight, applied⟩
      · obtain ⟨n, mem, raises⟩ := ihRight inner
        exact ⟨n, Expr.right_subset mem, raises⟩
      · obtain ⟨cause, raised, same⟩ := mapError_eq_error_iff.1 applied
        cases same
        exact ⟨_, Expr.self_mem_subexpressions _, .binary foldedLeft foldedRight raised⟩

/-! ### Formulas -/

theorem evaluateExpr_eq (expr : Expr) :
    e.evaluateExpr expr =
      (e.fold expr).bind fun operand => (operand.toUnit expr.span).mapError .error := by
  rw [evaluateExpr]
  cases e.fold expr <;> rfl

theorem evaluate_eq_of_parse {formula : String} {expr : Expr}
    (parsed : Expr.parse formula = .ok expr) : e.evaluate formula = e.evaluateExpr expr := by
  simp only [evaluate, parsed]

/-- A formula denotes a unit exactly when its tree denotes an operand that is one. -/
theorem evaluate_eq_ok_iff {formula : String} {u : MeasureUnit} :
    e.evaluate formula = .ok u ↔
      ∃ expr o, Expr.parse formula = .ok expr ∧ e.fold expr = .ok o ∧
        o.toUnit expr.span = .ok u := by
  cases parsed : Expr.parse formula with
  | error cause => simp [evaluate, parsed]
  | ok expr =>
      simp [evaluate_eq_of_parse parsed, evaluateExpr_eq, bind_eq_ok_iff, mapError_eq_ok_iff]

/-- A formula that fails has no tree, or its tree fails, or denotes a number that is no unit. -/
theorem evaluate_eq_error_iff {formula : String} {failure : Failure Formula.Error} :
    e.evaluate formula = .error failure ↔
      (∃ cause, Expr.parse formula = .error cause ∧ failure = .error cause) ∨
        ∃ expr, Expr.parse formula = .ok expr ∧
          (e.fold expr = .error failure ∨
            ∃ o cause, e.fold expr = .ok o ∧ o.toUnit expr.span = .error cause ∧
              failure = .error cause) := by
  cases parsed : Expr.parse formula with
  | error cause => simp [evaluate, parsed, eq_comm]
  | ok expr =>
      rw [evaluate_eq_of_parse parsed, evaluateExpr_eq, bind_eq_error_iff]
      simp only [mapError_eq_error_iff, reduceCtorEq, false_and, exists_false, false_or,
        Except.ok.injEq, exists_eq_left', @eq_comm _ failure, exists_and_left]

end Evaluator

end Metrology
