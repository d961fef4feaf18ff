/-
Module: Metrology.Evaluator
Layer: Formulas
Purpose: The unit that a formula denotes. Operands are plain numbers or units: numbers combine in
  double precision, a number scales a unit, a unit is raised to whole numbers only, and sums need
  the same unit on both sides. A formula that is a plain number denotes a dimensionless scale. Names
  are looked up in the evaluator's overrides before its table.
Imports: Metrology.SymbolTable, Metrology.Formula.Grammar
Main exports: Evaluator, Evaluator.resolve?, Operand, Evaluator.fold, Evaluator.evaluate
-/
import Metrology.SymbolTable
import Metrology.Formula.Grammar

namespace Metrology

open Formula (Expr Operator)

/-- A table, and names that go before it. -/
structure Evaluator where
  table : SymbolTable
  overrides : SymbolTable
deriving Inhabited

/-- Work on formulas ends in a diagnosed error, or in a fault when a prefixed name breaks the
    contract of scaling. -/
inductive Failure (ε : Type) where
  | error (e : ε)
  | fault (f : Fault)
deriving DecidableEq

/-- What a subexpression denotes. -/
inductive Operand where
  | number (k : Double)
  | unit (u : MeasureUnit)
deriving DecidableEq

namespace Evaluator

/-- An evaluator over a table, with nothing in front of it. -/
def ofTable (table : SymbolTable) : Evaluator := ⟨table, .empty⟩

/-- Binds a name in front of the table. -/
def define (e : Evaluator) (name : String) (unit : MeasureUnit) : Evaluator :=
  { e with overrides := e.overrides.define name unit }

/-- Binds names in front of the table, one after the other. -/
def extend (e : Evaluator) (pairs : List (String × MeasureUnit)) : Evaluator :=
  { e with overrides := e.overrides.extend pairs }

/-- The unit bound to a name, overrides first. -/
def lookup? (e : Evaluator) (name : String) : Option MeasureUnit :=
  match e.overrides.lookup? name with
  | some unit => some unit
  | none => e.table.lookup? name

/-- What a name stands for: exactly an override, exactly an entry of the table, or a prefix before
    either. -/
def resolve? (e : Evaluator) (name : String) : Option Resolution :=
  match e.overrides.lookup? name with
  | some unit => some (.exact unit)
  | none =>
    match e.table.lookup? name with
    | some unit => some (.exact unit)
    | none =>
      match MetricPrefix.split? name.toList with
      | some (metricPrefix, rest) =>
        (e.lookup? (String.ofList rest)).map fun base => .prefixed metricPrefix base
      | none => none

/-- An exact override or entry is found by the look-up that takes overrides first. -/
theorem resolve?_eq_find? (e : Evaluator) (name : String) :
    e.resolve? name = Resolution.find? e.lookup? name := by
  unfold resolve? Resolution.find?
  cases override : e.overrides.lookup? name with
  | some unit =>
      have bound : e.lookup? name = some unit := by simp only [lookup?, override]
      rw [bound]
  | none =>
      have bound : e.lookup? name = e.table.lookup? name := by simp only [lookup?, override]
      rewrite [bound]
      cases e.table.lookup? name <;> rfl

end Evaluator

/-! ### Operations on operands -/

/-- The operator on plain numbers. -/
def Formula.TermOperator.onNumbers : TermOperator → Double → Double → Double
  | add, a, b => a + b
  | subtract, a, b => a - b

namespace Operand

open Formula (Error)

/-- A failure of the unit algebra as an error about a range of the formula. -/
def algebraError (span : Span) : AlgebraError → Error
  | .exponentOverflow => .exponentOverflow span
  | .factorOutOfRange => .invalidScale span

/-- A result of the unit algebra about a range of the formula. -/
def located (span : Span) (result : Except AlgebraError MeasureUnit) : Except Error MeasureUnit :=
  result.mapError (algebraError span)

/-- The unit of an operand; a number is a dimensionless scale. -/
def toUnit (span : Span) : Operand → Except Error MeasureUnit
  | number k => located span (MeasureUnit.one.checkedScale k)
  | unit u => .ok u

/-- Negation is for numbers only. -/
def negate (span : Span) : Operand → Except Error Operand
  | number k => .ok (.number (-k))
  | unit _ => .error (.negatedUnit span)

/-- A sum or difference of operands that are not both numbers: the common unit. -/
def combineTerms (operator : Formula.TermOperator) (span : Span) (left right : Operand) :
    Except Error Operand := do
  let left ← left.toUnit span
  let right ← right.toUnit span
  if left.sameAs right then .ok (.unit left)
  else .error (.mismatchedTerms operator left right span)

/-- A sum or difference. -/
def combine (operator : Formula.TermOperator) (span : Span) :
    Operand → Operand → Except Error Operand
  | number a, number b => .ok (.number (operator.onNumbers a b))
  | left, right => combineTerms operator span left right

def mul (span : Span) : Operand → Operand → Except Error Operand
  | number a, number b => .ok (.number (a * b))
  | number k, unit u => unit <$> located span (u.checkedScale k)
  | unit u, number k => unit <$> located span (u.checkedScale k)
  | unit u, unit v => unit <$> located span (u.checkedMultiply v)

/-- A number over a unit scales the unit's reciprocal; a unit over a number is scaled by the
    number's reciprocal. -/
def div (span : Span) : Operand → Operand → Except Error Operand
  | number a, number b => .ok (.number (a / b))
  | unit u, number k => unit <$> located span (u.checkedScale (.one / k))
  | number k, unit u =>
    unit <$> located span
      ((MeasureUnit.one.checkedDivide u).bind fun inverse => inverse.checkedScale k)
  | unit u, unit v => unit <$> located span (u.checkedDivide v)

/-- The whole number that an exponent denotes; it has to fit 32 bits with a sign. -/
def wholeExponent (k : Double) (exponentSpan span : Span) : Except Error Int :=
  match k.toInt? with
  | some n => if Literal.exponentInRange n then .ok n else .error (.exponentOverflow span)
  | none => .error (.nonIntegerExponent k.text exponentSpan)

/-- A power with a whole exponent. -/
def pow (exponentSpan span : Span) : Operand → Operand → Except Error Operand
  | _, unit u => .error (.nonIntegerExponent (String.join ["the unit `", u.text, "`"]) exponentSpan)
  | base, number k =>
    match wholeExponent k exponentSpan span with
    | .error e => .error e
    | .ok n => match base with
      | number a => .ok (.number (a.power n))
      | unit u => unit <$> located span (u.checkedRaise n)

/-- An operator on two operands; the exponent's own range is where a bad exponent is reported. -/
def apply (op : Operator) (exponentSpan span : Span) (left right : Operand) :
    Except Error Operand :=
  match op with
  | .add => combine .add span left right
  | .sub => combine .subtract span left right
  | .mul => mul span left right
  | .div => div span left right
  | .pow => pow exponentSpan span left right

end Operand

namespace Evaluator

/-- What a tree denotes. -/
def fold (e : Evaluator) : Expr → Except (Failure Formula.Error) Operand
  | .name name span =>
    match e.resolve? name with
    | none => .error (.error (.unresolvedIdentifier name span))
    | some resolution => match resolution.unit with
      | .ok u => .ok (.unit u)
      | .error f => .error (.fault f)
  | .number value _ => .ok (.number value.value)
  | .neg operand span =>
    match e.fold operand with
    | .error failure => .error failure
    | .ok value => (value.negate span).mapError .error
  | .binary op left right span =>
    match e.fold left with
    | .error failure => .error failure
    | .ok l => match e.fold right with
      | .error failure => .error failure
      | .ok r => (Operand.apply op right.span span l r).mapError .error

/-- The unit that a tree denotes. -/
def evaluateExpr (e : Evaluator) (expr : Expr) : Except (Failure Formula.Error) MeasureUnit :=
  match e.fold expr with
  | .error failure => .error failure
  | .ok operand => (operand.toUnit expr.span).mapError .error

/-- The unit that a formula denotes. -/
def evaluate (e : Evaluator) (formula : String) : Except (Failure Formula.Error) MeasureUnit :=
  match Expr.parse formula with
  | .error error => .error (.error error)
  | .ok expr => e.evaluateExpr expr

/-- The unit that a formula denotes over the predefined units and some further names. -/
def evaluateWith (extras : List (String × MeasureUnit)) (formula : String) :
    Except (Failure Formula.Error) MeasureUnit :=
  ((ofTable .defaults).extend extras).evaluate formula

end Evaluator

end Metrology
