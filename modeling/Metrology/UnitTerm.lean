/-
Module: Metrology.UnitTerm
Layer: Units
Purpose: Terms that spell a unit out of predefined units, products, quotients, powers and metric
  prefixes. A term has a definition, which faults when an operation in it breaks its contract, and a
  symbol, in which compound parts are put in parentheses where they would be misread.
Imports: Metrology.Catalog
Main exports: UnitTerm, definition, symbol, WellDefined, UnitTerm.unit, SameUnit, Compatible
-/
import Metrology.Catalog

namespace Metrology

/-- A unit as it is spelled. -/
inductive UnitTerm where
  | one
  | named (u : CatalogUnit)
  | product (a b : UnitTerm)
  | quotient (a b : UnitTerm)
  | power (a : UnitTerm) (n : Int)
  | prefixed (a : UnitTerm) (p : MetricPrefix)
deriving DecidableEq, Repr, Inhabited

namespace UnitTerm

/-- The unit that a term stands for. -/
def definition : UnitTerm → Except Fault MeasureUnit
  | one => .ok .one
  | named u => .ok u.unit
  | product a b => do (← a.definition).multiply (← b.definition)
  | quotient a b => do (← a.definition).divide (← b.definition)
  | power a n => do (← a.definition).raise n
  | prefixed a p => do (← a.definition).applyPrefix p

/-- The operators that make a symbol compound. -/
def operators : List Char := ['·', '/', '^']

/-- A symbol in parentheses if one of the given operators occurs in it. -/
def grouped (operators : List Char) (symbol : List Char) : List Char :=
  if symbol.any operators.contains then '(' :: symbol ++ [')'] else symbol

/-- A whole number with its sign. -/
def intChars (n : Int) : List Char :=
  (if n < 0 then ['-'] else []) ++ Nat.toDigits 10 n.natAbs

/-- The symbol of a term. -/
def symbolChars : UnitTerm → List Char
  | one => ['1']
  | named u => u.symbol.toList
  | product a b => a.symbolChars ++ '·' :: b.symbolChars
  | quotient a b => a.symbolChars ++ '/' :: grouped ['·', '/'] b.symbolChars
  | power a n => grouped operators a.symbolChars ++ '^' :: intChars n
  | prefixed a p => p.symbol :: grouped operators a.symbolChars

def symbol (t : UnitTerm) : String := String.ofList t.symbolChars

/-! ### Terms that have a unit -/

/-- No operation in the term faults. -/
def WellDefined (t : UnitTerm) : Prop := t.definition.isOk = true

instance (t : UnitTerm) : Decidable t.WellDefined := inferInstanceAs (Decidable (_ = _))

/-- The unit of a term that has one. -/
def unit (t : UnitTerm) (h : t.WellDefined) : MeasureUnit :=
  match result : t.definition with
  | .ok u => u
  | .error _ => absurd h (by simp [WellDefined, result, Except.isOk, Except.toBool])

theorem definition_eq_unit (t : UnitTerm) (h : t.WellDefined) : t.definition = .ok (t.unit h) := by
  unfold unit
  split
  · assumption
  · next result => simp [WellDefined, result, Except.isOk, Except.toBool] at h

theorem unit_eq {t : UnitTerm} {u : MeasureUnit} (h : t.WellDefined) (eq : t.definition = .ok u) :
    t.unit h = u := by
  have := t.definition_eq_unit h
  rw [eq] at this
  simpa using this.symm

/-- Both terms have a unit, and it is the very same. -/
def SameUnit (s t : UnitTerm) : Prop :=
  ∃ (hs : s.WellDefined) (ht : t.WellDefined), (s.unit hs).sameAs (t.unit ht) = true

/-- Both terms have a unit, and the units are of one dimension. -/
def Compatible (s t : UnitTerm) : Prop :=
  ∃ (hs : s.WellDefined) (ht : t.WellDefined), (s.unit hs).isCompatible (t.unit ht) = true

instance (s t : UnitTerm) : Decidable (SameUnit s t) := inferInstanceAs (Decidable (∃ _ _, _ = _))

instance (s t : UnitTerm) : Decidable (Compatible s t) := inferInstanceAs (Decidable (∃ _ _, _ = _))

example : (quotient (named .meter) (power (named .second) 2)).symbol = "m/s^2" := by decide +kernel
example : (power (quotient (named .meter) (named .second)) (-1)).symbol = "(m/s)^-1" := by
  decide +kernel

end UnitTerm

end Metrology
