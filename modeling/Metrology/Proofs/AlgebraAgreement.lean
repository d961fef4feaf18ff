/-
Module: Metrology.Proofs.AlgebraAgreement
Layer: Proofs
Purpose: Formulas compute what the unit algebra computes. An algebra term over the predefined units
  is written out with parentheses around every operation; evaluating the text gives the unit that
  the checked operations give, or the error of the first of them that fails. The formula's tree is
  the term's shape, so the agreement is an induction over the term.
Imports: Metrology.Proofs.WrittenShape, Metrology.Proofs.EvaluatorFold, Metrology.Proofs.BinaryExact
Main exports: AlgebraTerm, AlgebraTerm.text, AlgebraTerm.compute, AlgebraTerm.fold_agrees,
  AlgebraTerm.evaluate_text
-/
import Metrology.Proofs.WrittenShape
import Metrology.Proofs.EvaluatorFold
import Metrology.Proofs.BinaryExact

namespace Metrology

open Formula (Expr Shape Error)

/-- A computation of the unit algebra over the predefined units. Exponents fit 32 bits with a sign,
    and numbers to scale by are doubles without loss. -/
inductive AlgebraTerm where
  | symbol (u : CatalogUnit)
  | longName (u : CatalogUnit)
  | product (left right : AlgebraTerm)
  | quotient (left right : AlgebraTerm)
  | power (base : AlgebraTerm) (n : Int) (fits : -(2 ^ 31) ≤ n ∧ n < 2 ^ 31)
  | scaled (k : Nat) (fits : 0 < k ∧ k ≤ 2 ^ 53) (base : AlgebraTerm)

namespace AlgebraTerm

/-- The unit that the checked operations give, operands first and from left to right. -/
def compute : AlgebraTerm → Except AlgebraError MeasureUnit
  | symbol u => .ok u.unit
  | longName u => .ok u.unit
  | product left right => do
    let l ← left.compute
    let r ← right.compute
    l.checkedMultiply r
  | quotient left right => do
    let l ← left.compute
    let r ← right.compute
    l.checkedDivide r
  | power base n _ => do
    let u ← base.compute
    u.checkedRaise n
  | scaled k _ base => do
    let u ← base.compute
    u.checkedScale (.ofNat k)

/-- A whole exponent; a negative one is written in parentheses. -/
def exponentChars (n : Int) : List Char :=
  if n < 0 then "(-".toList ++ decimalDigits n.natAbs ++ [')'] else decimalDigits n.natAbs

/-- The characters of the term's formula. -/
def chars : AlgebraTerm → List Char
  | symbol u => u.symbol.toList
  | longName u => u.name.toList
  | product left right => ['('] ++ left.chars ++ " * ".toList ++ right.chars ++ [')']
  | quotient left right => ['('] ++ left.chars ++ " / ".toList ++ right.chars ++ [')']
  | power base n _ => ['('] ++ base.chars ++ " ^ ".toList ++ exponentChars n ++ [')']
  | scaled k _ base => ['('] ++ decimalDigits k ++ " * ".toList ++ base.chars ++ [')']

/-- The term's formula, with parentheses around every operation. -/
def text (t : AlgebraTerm) : String := String.ofList t.chars

example : (scaled 3 (by decide) (power (symbol .second) (-2) (by decide))).text =
    "(3 * (s ^ (-2)))" := by
  decide +kernel

/-! ### The tree of the formula -/

/-- A natural number as it is written in a formula. -/
def numeral (n : Nat) : Shape := .number (String.ofList (decimalDigits n))

def exponentShape (n : Int) : Shape :=
  if n < 0 then .neg (numeral n.natAbs) else numeral n.natAbs

/-- The term as a formula without ranges and values. -/
def shape : AlgebraTerm → Shape
  | symbol u => .name u.symbol
  | longName u => .name u.name
  | product left right => .binary .mul left.shape right.shape
  | quotient left right => .binary .div left.shape right.shape
  | power base n _ => .binary .pow base.shape (exponentShape n)
  | scaled k _ base => .binary .mul (numeral k) base.shape

theorem renderChars_numeral (n : Nat) : (numeral n).renderChars = decimalDigits n := by
  rw [numeral, Shape.renderChars, String.toList_ofList]

theorem renderChars_exponentShape (n : Int) :
    (exponentShape n).renderChars = exponentChars n := by
  unfold exponentShape exponentChars
  split
  · simp [Shape.renderChars, renderChars_numeral]
  · exact renderChars_numeral _

theorem renderChars_shape (t : AlgebraTerm) : t.shape.renderChars = t.chars := by
  induction t with
  | symbol u => rfl
  | longName u => rfl
  | product left right ihLeft ihRight =>
      simp [shape, chars, Shape.renderChars, ihLeft, ihRight, Formula.Operator.symbol]
  | quotient left right ihLeft ihRight =>
      simp [shape, chars, Shape.renderChars, ihLeft, ihRight, Formula.Operator.symbol]
  | power base n fits ih =>
      simp [shape, chars, Shape.renderChars, ih, Formula.Operator.symbol,
        renderChars_exponentShape]
  | scaled k fits base ih =>
      simp [shape, chars, Shape.renderChars, ih, Formula.Operator.symbol, renderChars_numeral]

/-- Symbols and long names are names. -/
theorem written_names (u : CatalogUnit) :
    Shape.Written (.name u.symbol) ∧ Shape.Written (.name u.name) := by
  have names : ∀ u ∈ CatalogUnit.all,
      (u.symbol.toList ≠ [] ∧ u.symbol.toList.all Formula.Token.isNameChar = true) ∧
        u.name.toList ≠ [] ∧ u.name.toList.all Formula.Token.isNameChar = true := by
    decide +kernel
  obtain ⟨⟨symbol, symbolChars⟩, name, nameChars⟩ := names u u.mem_all
  exact ⟨.name symbol (List.all_eq_true.1 symbolChars), .name name (List.all_eq_true.1 nameChars)⟩

theorem written_numeral {n : Nat} (h : n ≤ 2 ^ 53) : (numeral n).Written :=
  Shape.written_decimalDigits (Nat.lt_of_le_of_lt h (by decide))

/-- An exponent's magnitude is a double without loss. -/
theorem natAbs_le_of_fits {n : Int} (fits : -(2 ^ 31) ≤ n ∧ n < 2 ^ 31) : n.natAbs ≤ 2 ^ 53 := by
  omega

theorem written_shape (t : AlgebraTerm) : t.shape.Written := by
  induction t with
  | symbol u => exact (written_names u).1
  | longName u => exact (written_names u).2
  | product left right ihLeft ihRight => exact .binary ihLeft ihRight
  | quotient left right ihLeft ihRight => exact .binary ihLeft ihRight
  | power base n fits ih =>
      refine .binary ih ?_
      have magnitude := written_numeral (natAbs_le_of_fits fits)
      unfold exponentShape
      split
      · exact .neg magnitude
      · exact magnitude
  | scaled k fits base ih => exact .binary (written_numeral fits.2) ih

/-! ### Numbers in trees -/

/-- A tree of a numeral denotes the number. -/
theorem fold_numeral {e : Evaluator} {n : Nat} {expr : Expr} (h : n ≤ 2 ^ 53)
    (fits : (numeral n).Fits expr) : e.fold expr = .ok (.number (.ofNat n)) := by
  cases fits with
  | number reading =>
      rw [Literal.read_decimalDigits (Nat.lt_of_le_of_lt h (by decide))] at reading
      cases reading
      rfl

/-- A tree of an exponent denotes a number that is the exponent. -/
theorem fold_exponentShape {e : Evaluator} {n : Int} {expr : Expr}
    (range : -(2 ^ 31) ≤ n ∧ n < 2 ^ 31) (fits : (exponentShape n).Fits expr) :
    ∃ k, e.fold expr = .ok (.number k) ∧ k.toInt? = some n := by
  have exact := Binary.toInt?_ofNat (w := .double) (natAbs_le_of_fits range)
  unfold exponentShape at fits
  split at fits
  · next negative =>
      cases fits with
      | neg inner =>
          refine ⟨-.ofNat n.natAbs, ?_, ?_⟩
          · rw [Evaluator.fold_neg, fold_numeral (natAbs_le_of_fits range) inner]
            rfl
          · have same : -(n.natAbs : Int) = n := by omega
            rw [Binary.toInt?_neg exact, same]
  · next nonnegative =>
      refine ⟨.ofNat n.natAbs, fold_numeral (natAbs_le_of_fits range) fits, ?_⟩
      have same : (n.natAbs : Int) = n := by omega
      rw [exact, same]

/-! ### Agreement -/

/-- A fold gives what a computation gives: its unit, or its failure about some range. -/
def Agrees (result : Except (Failure Error) Operand)
    (computed : Except AlgebraError MeasureUnit) : Prop :=
  ∃ span, result = ((Operand.located span computed).mapError .error).map .unit

/-- A unit denoted by an operand goes into the next operation on both sides. -/
theorem Agrees.bind {result : Except (Failure Error) Operand}
    {computed : Except AlgebraError MeasureUnit}
    {next : Operand → Except (Failure Error) Operand}
    {further : MeasureUnit → Except AlgebraError MeasureUnit} (h : Agrees result computed)
    (step : ∀ u, Agrees (next (.unit u)) (further u)) :
    Agrees (result.bind next) (computed.bind further) := by
  obtain ⟨span, rfl⟩ := h
  cases computed with
  | error cause => exact ⟨span, rfl⟩
  | ok u => exact step u

/-- An operation of the algebra on the last operand. -/
theorem agrees_operation (span : Span) (computed : Except AlgebraError MeasureUnit) :
    Agrees ((Operand.unit <$> Operand.located span computed).mapError .error) computed := by
  refine ⟨span, ?_⟩
  cases computed <;> rfl

/-- The predefined units are known by both of their names. -/
def KnowsCatalog (e : Evaluator) : Prop :=
  ∀ u : CatalogUnit, e.lookup? u.symbol = some u.unit ∧ e.lookup? u.name = some u.unit

theorem knowsCatalog_defaults : KnowsCatalog ((Evaluator.ofTable .defaults).extend []) := by
  have bound : ∀ u ∈ CatalogUnit.all, SymbolTable.defaults.lookup? u.symbol = some u.unit ∧
      SymbolTable.defaults.lookup? u.name = some u.unit := by decide +kernel
  exact fun u => bound u u.mem_all

/-- A name that is bound denotes its unit, whatever its prefixes would stand for. -/
theorem fold_bound {e : Evaluator} {name : String} {u : MeasureUnit} {expr : Expr}
    (bound : e.lookup? name = some u) (fits : Shape.Fits (.name name) expr) :
    e.fold expr = .ok (.unit u) := by
  cases fits
  refine Evaluator.fold_name_eq_ok_iff.2 ⟨.exact u, u, ?_, rfl, rfl⟩
  rw [Evaluator.resolve?_eq_find?, Resolution.find?, bound]

/-- Folding a tree of the term's shape is computing the term. -/
theorem fold_agrees {e : Evaluator} (known : KnowsCatalog e) (t : AlgebraTerm) {expr : Expr}
    (fits : t.shape.Fits expr) : Agrees (e.fold expr) t.compute := by
  induction t generalizing expr with
  | symbol u => exact ⟨⟨0, 0⟩, fold_bound (known u).1 fits⟩
  | longName u => exact ⟨⟨0, 0⟩, fold_bound (known u).2 fits⟩
  | product left right ihLeft ihRight =>
      cases fits with
      | binary fitsLeft fitsRight =>
          rw [Evaluator.fold_binary]
          exact (ihLeft fitsLeft).bind fun u => (ihRight fitsRight).bind fun v =>
            agrees_operation _ (u.checkedMultiply v)
  | quotient left right ihLeft ihRight =>
      cases fits with
      | binary fitsLeft fitsRight =>
          rw [Evaluator.fold_binary]
          exact (ihLeft fitsLeft).bind fun u => (ihRight fitsRight).bind fun v =>
            agrees_operation _ (u.checkedDivide v)
  | power base n range ih =>
      cases fits with
      | @binary _ _ _ l r span fitsBase fitsExponent =>
          obtain ⟨k, exponent, whole⟩ := fold_exponentShape range fitsExponent
          have inRange : Literal.exponentInRange n = true := decide_eq_true range
          rw [Evaluator.fold_binary, exponent]
          refine (ih fitsBase).bind fun u => ?_
          have raised : Operand.apply .pow r.span span (.unit u) (.number k) =
              Operand.unit <$> Operand.located span (u.checkedRaise n) := by
            simp only [Operand.apply, Operand.pow, Operand.wholeExponent, whole, inRange, if_true]
          change Agrees ((Operand.apply .pow r.span span (.unit u) (.number k)).mapError .error) _
          rw [raised]
          exact agrees_operation _ _
  | scaled k range base ih =>
      cases fits with
      | binary fitsNumber fitsBase =>
          rw [Evaluator.fold_binary, fold_numeral range.2 fitsNumber]
          exact (ih fitsBase).bind fun u => agrees_operation _ (u.checkedScale (.ofNat k))

/-- The text of a term evaluates to the computed unit, or to its failure about some range. -/
theorem evaluate_text_eq (t : AlgebraTerm) :
    ∃ span, Evaluator.evaluateWith [] t.text =
      (Operand.located span t.compute).mapError .error := by
  obtain ⟨expr, parsed, fits⟩ := t.written_shape.parse
  have whole : Expr.parse t.text = .ok expr := by rw [text, ← renderChars_shape, parsed]
  obtain ⟨span, folded⟩ := fold_agrees knowsCatalog_defaults t fits
  refine ⟨span, ?_⟩
  rw [Evaluator.evaluateWith, Evaluator.evaluate_eq_of_parse whole, Evaluator.evaluateExpr_eq,
    folded]
  cases t.compute <;> rfl

/-- Evaluating a term's formula over the predefined units is computing the term with the checked
    operations: the same unit, or the same kind of failure. -/
theorem evaluate_text (t : AlgebraTerm) :
    (∀ u, Evaluator.evaluateWith [] t.text = .ok u ↔ t.compute = .ok u) ∧
      ((∃ span, Evaluator.evaluateWith [] t.text = .error (.error (.exponentOverflow span))) ↔
        t.compute = .error .exponentOverflow) ∧
      ((∃ span, Evaluator.evaluateWith [] t.text = .error (.error (.invalidScale span))) ↔
        t.compute = .error .factorOutOfRange) := by
  obtain ⟨span, evaluated⟩ := t.evaluate_text_eq
  rw [evaluated]
  cases t.compute with
  | ok u => simp [Operand.located]
  | error cause => cases cause <;> simp [Operand.located, Operand.algebraError]

end AlgebraTerm

end Metrology
