/-
Module: Metrology.MetricPrefix
Layer: Units
Purpose: The eleven metric prefixes that formulas recognise, from tera to pico, each a power of ten
  with a one-character symbol.
Imports: Metrology.Decimal.Number
Main exports: MetricPrefix, MetricPrefix.all, multiplier, symbol, name, ofSymbol?
-/
import Metrology.Decimal.Number

namespace Metrology

/-- A power of ten that may stand before a unit name. -/
inductive MetricPrefix where
  | tera
  | giga
  | mega
  | kilo
  | hecto
  | deci
  | centi
  | milli
  | micro
  | nano
  | pico
deriving DecidableEq, Repr, Inhabited

namespace MetricPrefix

/-- Every prefix, largest multiplier first. -/
def all : List MetricPrefix :=
  [tera, giga, mega, kilo, hecto, deci, centi, milli, micro, nano, pico]

/-- The power of ten. -/
def power : MetricPrefix → Int
  | tera => 12
  | giga => 9
  | mega => 6
  | kilo => 3
  | hecto => 2
  | deci => -1
  | centi => -2
  | milli => -3
  | micro => -6
  | nano => -9
  | pico => -12

/-- The double nearest to the power of ten. -/
def multiplier (p : MetricPrefix) : Double := Decimal.toBinary .double false ⟨1, p.power⟩

/-- The symbol in formulas; `u` stands in for the Greek letter of micro. -/
def symbol : MetricPrefix → Char
  | tera => 'T'
  | giga => 'G'
  | mega => 'M'
  | kilo => 'k'
  | hecto => 'h'
  | deci => 'd'
  | centi => 'c'
  | milli => 'm'
  | micro => 'u'
  | nano => 'n'
  | pico => 'p'

def name : MetricPrefix → String
  | tera => "tera"
  | giga => "giga"
  | mega => "mega"
  | kilo => "kilo"
  | hecto => "hecto"
  | deci => "deci"
  | centi => "centi"
  | milli => "milli"
  | micro => "micro"
  | nano => "nano"
  | pico => "pico"

/-- The prefix with a symbol; case matters, `M` is mega and `m` is milli. -/
def ofSymbol? (c : Char) : Option MetricPrefix := all.find? fun p => p.symbol == c

/-- The prefix with a name. -/
def ofName? (name : String) : Option MetricPrefix := all.find? fun p => p.name == name

theorem mem_all (p : MetricPrefix) : p ∈ all := by cases p <;> decide

@[simp] theorem ofSymbol?_symbol (p : MetricPrefix) : ofSymbol? p.symbol = some p := by
  cases p <;> decide

/-- A name's first character read as a prefix, with the name that is left, if any is. -/
def split? (name : List Char) : Option (MetricPrefix × List Char) :=
  match name with
  | first :: rest => if rest.isEmpty then none else (ofSymbol? first).map fun p => (p, rest)
  | [] => none

example : split? ['m', 'g'] = some (milli, ['g']) := by decide
example : split? ['m'] = none := by decide

end MetricPrefix

end Metrology
