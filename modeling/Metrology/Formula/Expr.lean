/-
Module: Metrology.Formula.Expr
Layer: Formulas
Purpose: Formulas as trees, and their fully parenthesised text. Every node knows the range of the
  formula that it was read from; a parenthesised node's range takes in its parentheses.
Imports: Metrology.Formula.Literal, Metrology.Span, Metrology.Decimal.Layout
Main exports: Operator, Expr, Expr.span, Expr.withSpan, Expr.render
-/
import Metrology.Formula.Literal
import Metrology.Span
import Metrology.Decimal.Layout

namespace Metrology.Formula

/-- The binary operators. -/
inductive Operator where
  | add
  | sub
  | mul
  | div
  | pow
deriving DecidableEq, Repr, Inhabited

namespace Operator

def symbol : Operator → Char
  | add => '+'
  | sub => '-'
  | mul => '*'
  | div => '/'
  | pow => '^'

/-- Sums bind least, powers most. -/
def level : Operator → Nat
  | add => 1
  | sub => 1
  | mul => 2
  | div => 2
  | pow => 3

end Operator

/-- A formula as a tree. -/
inductive Expr where
  | name (name : String) (span : Span)
  | number (value : Literal) (span : Span)
  | neg (operand : Expr) (span : Span)
  | binary (op : Operator) (left right : Expr) (span : Span)
deriving DecidableEq

namespace Expr

/-- The range of the formula that the node was read from. -/
def span : Expr → Span
  | name _ span => span
  | number _ span => span
  | neg _ span => span
  | binary _ _ _ span => span

/-- The same node with another range; the nodes below keep theirs. -/
def withSpan : Expr → Span → Expr
  | name n _, span => name n span
  | number value _, span => number value span
  | neg operand _, span => neg operand span
  | binary op left right _, span => binary op left right span

/-- The text with parentheses around every operation. -/
def renderChars : Expr → List Char
  | name n _ => n.toList
  | number value _ => value.value.text.toList
  | neg operand _ => '(' :: '-' :: operand.renderChars ++ [')']
  | binary op left right _ =>
    '(' :: left.renderChars ++ ' ' :: op.symbol :: ' ' :: right.renderChars ++ [')']

def render (e : Expr) : String := String.ofList e.renderChars

@[simp] theorem span_withSpan (e : Expr) (s : Span) : (e.withSpan s).span = s := by
  cases e <;> rfl

end Expr

end Metrology.Formula
