/-
Module: Metrology.Catalog
Layer: Units
Purpose: The predefined units, coherent ones first. Each answers to a symbol and to a long name.
  Factors are the exact decimal definitions rounded to double precision, or the double result of the
  arithmetic that defines them.
Imports: Metrology.MeasureUnit
Main exports: CatalogUnit, CatalogUnit.all, symbol, name, unit, CatalogUnit.find?
-/
import Metrology.MeasureUnit

namespace Metrology

/-- The predefined units. -/
inductive CatalogUnit where
  | meter
  | second
  | kilogram
  | ampere
  | kelvin
  | gram
  | newton
  | joule
  | watt
  | pascal
  | hertz
  | coulomb
  | volt
  | ohm
  | liter
  | minute
  | hour
  | day
  | inch
  | foot
  | yard
  | mile
  | nauticalMile
  | knot
  | pound
  | ounce
  | poundForce
  | calorie
  | horsepower
  | atmosphere
  | bar
deriving DecidableEq, Repr, Inhabited

namespace CatalogUnit

/-- Every predefined unit, in the order of the catalogue. -/
def all : List CatalogUnit :=
  [meter, second, kilogram, ampere, kelvin, gram, newton, joule, watt, pascal, hertz,
   coulomb, volt, ohm, liter, minute, hour, day, inch, foot, yard, mile, nauticalMile, knot,
   pound, ounce, poundForce, calorie, horsepower, atmosphere, bar]

/-- The short symbol. -/
def symbol : CatalogUnit → String
  | meter => "m"
  | second => "s"
  | kilogram => "kg"
  | ampere => "A"
  | kelvin => "K"
  | gram => "g"
  | newton => "N"
  | joule => "J"
  | watt => "W"
  | pascal => "Pa"
  | hertz => "Hz"
  | coulomb => "C"
  | volt => "V"
  | ohm => "Ohm"
  | liter => "L"
  | minute => "min"
  | hour => "h"
  | day => "d"
  | inch => "in"
  | foot => "ft"
  | yard => "yd"
  | mile => "mi"
  | nauticalMile => "nmi"
  | knot => "kn"
  | pound => "lb"
  | ounce => "oz"
  | poundForce => "lbf"
  | calorie => "cal"
  | horsepower => "hp"
  | atmosphere => "atm"
  | bar => "bar"

/-- The long name. -/
def name : CatalogUnit → String
  | meter => "meter"
  | second => "second"
  | kilogram => "kilogram"
  | ampere => "ampere"
  | kelvin => "kelvin"
  | gram => "gram"
  | newton => "newton"
  | joule => "joule"
  | watt => "watt"
  | pascal => "pascal"
  | hertz => "hertz"
  | coulomb => "coulomb"
  | volt => "volt"
  | ohm => "ohm"
  | liter => "liter"
  | minute => "minute"
  | hour => "hour"
  | day => "day"
  | inch => "inch"
  | foot => "foot"
  | yard => "yard"
  | mile => "mile"
  | nauticalMile => "nautical_mile"
  | knot => "knot"
  | pound => "pound"
  | ounce => "ounce"
  | poundForce => "pound_force"
  | calorie => "calorie"
  | horsepower => "horsepower"
  | atmosphere => "atmosphere"
  | bar => "bar"

/-! ### Definitions -/

/-- The double nearest to a decimal. -/
def decimal (significand : Nat) (exponent : Int) : Double :=
  Decimal.toBinary .double false ⟨significand, exponent⟩

/-- The standard acceleration of gravity, in metres per second squared. -/
def standardGravity : Double := decimal 980665 (-5)

/-- The coherent unit of a dimension. -/
def coherent (d : Dimension) : MeasureUnit := .base d

/-- What the unit stands for. -/
def unit : CatalogUnit → MeasureUnit
  | meter => coherent (.base .length)
  | second => coherent (.base .time)
  | kilogram => coherent (.base .mass)
  | ampere => coherent (.base .current)
  | kelvin => coherent (.base .temperature)
  | gram => ⟨.base .mass, decimal 1 (-3)⟩
  | newton => coherent .force
  | joule => coherent .energy
  | watt => coherent .power
  | pascal => coherent .pressure
  | hertz => coherent .frequency
  | coulomb => coherent .charge
  | volt => coherent .voltage
  | ohm => coherent .resistance
  | liter => ⟨.volume, decimal 1 (-3)⟩
  | minute => ⟨.base .time, decimal 60 0⟩
  | hour => ⟨.base .time, decimal 60 0 * decimal 60 0⟩
  | day => ⟨.base .time, decimal 60 0 * decimal 60 0 * decimal 24 0⟩
  | inch => ⟨.base .length, decimal 254 (-4)⟩
  | foot => ⟨.base .length, decimal 3048 (-4)⟩
  | yard => ⟨.base .length, decimal 9144 (-4)⟩
  | mile => ⟨.base .length, decimal 1609344 (-3)⟩
  | nauticalMile => ⟨.base .length, decimal 1852 0⟩
  | knot => ⟨.velocity, decimal 1852 0 / (decimal 60 0 * decimal 60 0)⟩
  | pound => ⟨.base .mass, decimal 45359237 (-8)⟩
  | ounce => ⟨.base .mass, decimal 45359237 (-8) * decimal 625 (-4)⟩
  | poundForce => ⟨.force, decimal 45359237 (-8) * standardGravity⟩
  | calorie => ⟨.energy, decimal 4184 (-3)⟩
  | horsepower => ⟨.power, decimal 74569987158227022 (-14)⟩
  | atmosphere => ⟨.pressure, decimal 101325 0⟩
  | bar => ⟨.pressure, decimal 1 5⟩

/-- The unit with a symbol or a long name; case matters. -/
def find? (key : String) : Option CatalogUnit :=
  all.find? fun u => u.symbol == key || u.name == key

theorem mem_all (u : CatalogUnit) : u ∈ all := by cases u <;> decide

/-- Every predefined unit has a positive finite factor. -/
theorem valid_unit (u : CatalogUnit) : u.unit.Valid := by
  cases u <;> decide +kernel

/-! ### Definitions through the algebra

The coherent units are what the unit algebra makes of the base units. -/

example : (do
    let force ← kilogram.unit.checkedMultiply meter.unit
    let squared ← second.unit.checkedRaise 2
    force.checkedDivide squared : Except AlgebraError MeasureUnit).toOption = some newton.unit := by
  decide +kernel
example : (newton.unit.checkedMultiply meter.unit).toOption = some joule.unit := by decide +kernel
example : (joule.unit.checkedDivide second.unit).toOption = some watt.unit := by decide +kernel
example : (volt.unit.checkedDivide ampere.unit).toOption = some ohm.unit := by decide +kernel
example : (nauticalMile.unit.checkedDivide hour.unit).toOption = some knot.unit := by decide +kernel

end CatalogUnit

end Metrology
