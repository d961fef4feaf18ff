/-
Module: Metrology.Formula.Error
Layer: Formulas
Purpose: The ways in which a formula fails to denote a unit. Each carries the range of the formula
  it is about, and has a stable code, a message, a label for the range and sometimes a hint.
Imports: Metrology.MeasureUnit, Metrology.Diagnostic, Metrology.Formula.Literal
Main exports: Formula.Error, Formula.Error.span, Formula.Error.diagnostic
-/
import Metrology.MeasureUnit
import Metrology.Diagnostic
import Metrology.Formula.Literal

namespace Metrology.Formula

/-- What the grammar allows where something else stands. -/
inductive Expected where
  | operator
  | operand
  | closing
deriving DecidableEq, Repr, Inhabited

def Expected.text : Expected → String
  | operator => "an operator"
  | operand => "a unit or number"
  | closing => "`)`"

/-- The two operators that combine equal units. -/
inductive TermOperator where
  | add
  | subtract
deriving DecidableEq, Repr, Inhabited

def TermOperator.verb : TermOperator → String
  | add => "add"
  | subtract => "subtract"

/-- Why a formula denotes no unit. -/
inductive Error where
  | unresolvedIdentifier (name : String) (span : Span)
  | malformedLiteral (text : String) (defect : LiteralError) (span : Span)
  | nonIntegerExponent (found : String) (span : Span)
  | mismatchedTerms (operator : TermOperator) (left right : MeasureUnit) (span : Span)
  | invalidScale (span : Span)
  | negatedUnit (span : Span)
  | exponentOverflow (span : Span)
  | unexpectedCharacter (found : Char) (span : Span)
  | unexpectedToken (expected : Expected) (found : String) (span : Span)
  | unexpectedEnd (expected : Expected) (span : Span)
deriving DecidableEq

namespace Error

/-- The range of the formula that the error is about. -/
def span : Error → Span
  | unresolvedIdentifier _ span => span
  | malformedLiteral _ _ span => span
  | nonIntegerExponent _ span => span
  | mismatchedTerms _ _ _ span => span
  | invalidScale span => span
  | negatedUnit span => span
  | exponentOverflow span => span
  | unexpectedCharacter _ span => span
  | unexpectedToken _ _ span => span
  | unexpectedEnd _ span => span

def code : Error → String
  | unresolvedIdentifier .. => "U0001"
  | malformedLiteral .. => "U0002"
  | nonIntegerExponent .. => "U0003"
  | mismatchedTerms .. => "U0004"
  | invalidScale .. => "U0005"
  | negatedUnit .. => "U0006"
  | exponentOverflow .. => "U0007"
  | unexpectedCharacter .. => "U0008"
  | unexpectedToken .. => "U0009"
  | unexpectedEnd .. => "U0010"

def message : Error → String
  | unresolvedIdentifier name _ => String.join ["unresolved identifier `", name, "`"]
  | malformedLiteral text defect _ =>
    String.join ["malformed numeric literal `", text, "`: ", defect.message]
  | nonIntegerExponent found _ =>
    String.join ["exponent must be a whole number, found ", found]
  | mismatchedTerms operator left right _ =>
    String.join ["cannot ", operator.verb, " `", left.text, "` and `", right.text,
      "`: both terms must be the same unit"]
  | invalidScale _ => "scale factor must be positive and finite"
  | negatedUnit _ => "a unit cannot be negated"
  | exponentOverflow _ => "dimension exponent out of range"
  | unexpectedCharacter found _ =>
    String.join ["unexpected character `", String.ofList [found], "`"]
  | unexpectedToken expected found _ =>
    String.join ["expected ", expected.text, ", found `", found, "`"]
  | unexpectedEnd expected _ => String.join ["expected ", expected.text, ", found end of formula"]

/-- What the range is labelled with. -/
def label : Error → String
  | unresolvedIdentifier .. => "unknown unit"
  | malformedLiteral .. => "invalid literal"
  | nonIntegerExponent .. => "not a whole number"
  | mismatchedTerms .. => "terms differ"
  | invalidScale .. => "this scale is zero, negative, or out of range"
  | negatedUnit .. => "negated unit"
  | exponentOverflow .. => "exponent overflows here"
  | unexpectedCharacter .. => "not allowed in a formula"
  | unexpectedToken .. => "unexpected token"
  | unexpectedEnd .. => "formula ends here"

def help? : Error → Option String
  | unresolvedIdentifier name _ =>
    some (String.join ["`", name, "` is neither a known unit, a caller-supplied identifier, nor ",
      "a metric prefix (T G M k h d c m u n p) applied to one"])
  | malformedLiteral .. => none
  | nonIntegerExponent .. =>
    some "`^` raises a unit to an integer power written in the formula, e.g. `m^3` or `s^-2`"
  | mismatchedTerms .. => some "`+` and `-` never convert; write both terms in the same unit"
  | invalidScale .. => some "a unit can only be scaled by a positive number, e.g. `0.3048 * m`"
  | negatedUnit .. => some "negation only applies to numbers, e.g. `s^-2`"
  | exponentOverflow .. => some "exponents are limited to -128..=127 per dimension"
  | unexpectedCharacter .. =>
    some "formulas contain identifiers, numbers, `+ - * / ^` and parentheses"
  | unexpectedToken .. => none
  | unexpectedEnd .. => none

def diagnostic (e : Error) : Diagnostic where
  code := e.code
  message := e.message
  help? := e.help?
  labels := [(e.span, e.label)]

end Error

end Metrology.Formula
