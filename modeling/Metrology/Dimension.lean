/-
Module: Metrology.Dimension
Layer: Units
Purpose: Dimensions as vectors of small whole exponents over five base quantities. Products and
  quotients are integer arithmetic on the vector followed by one range check. A power multiplies
  each exponent in 32 bits before it is tested for the range of exponents; the wider step loses
  nothing, so all checked forms have a result exactly when every component stays in range.
Imports: none (Mathlib-free)
Main exports: BaseQuantity, Exponent, Exponent.scaled?_eq, Dimension, Dimension.ofExponents?, mul?,
  div?, pow?, pow?_eq, siSymbol, text
-/

namespace Metrology

/-- The base quantities whose exponents are tracked. -/
inductive BaseQuantity where
  | length
  | time
  | mass
  | current
  | temperature
deriving DecidableEq, Repr, Inhabited

namespace BaseQuantity

/-- Mass comes first in every written dimension, then length and time. -/
def writingOrder : List BaseQuantity := [mass, length, time, current, temperature]

/-- The symbol of the coherent unit. -/
def unitSymbol : BaseQuantity → List Char
  | length => ['m']
  | time => ['s']
  | mass => ['k', 'g']
  | current => ['A']
  | temperature => ['K']

/-- The letter of the quantity itself. -/
def letter : BaseQuantity → List Char
  | length => ['L']
  | time => ['T']
  | mass => ['M']
  | current => ['I']
  | temperature => ['Θ']

theorem mem_writingOrder (q : BaseQuantity) : q ∈ writingOrder := by
  cases q <;> decide

end BaseQuantity

/-- The exponent of one base quantity. -/
structure Exponent where
  val : Int
  lower : -128 ≤ val
  upper : val ≤ 127
deriving DecidableEq

namespace Exponent

/-- The integer as an exponent, if it is in range. -/
def ofInt? (n : Int) : Option Exponent :=
  if h : -128 ≤ n ∧ n ≤ 127 then some ⟨n, h.1, h.2⟩ else none

def zero : Exponent := ⟨0, by decide, by decide⟩

instance : Inhabited Exponent := ⟨zero⟩

theorem ofInt?_eq_some_iff {n : Int} {e : Exponent} : ofInt? n = some e ↔ e.val = n := by
  obtain ⟨val, lower, upper⟩ := e
  constructor
  · intro h
    simp only [ofInt?] at h
    split at h
    · simp_all
    · simp at h
  · intro h
    simp only at h
    subst h
    simp [ofInt?, lower, upper]

theorem ofInt?_isSome_iff {n : Int} : (ofInt? n).isSome = true ↔ -128 ≤ n ∧ n ≤ 127 := by
  simp only [ofInt?]
  split <;> simp_all

/-- The product of two numbers, if it fits 32 bits with a sign. -/
def product32? (m n : Int) : Option Int :=
  if -2147483648 ≤ m * n ∧ m * n ≤ 2147483647 then some (m * n) else none

/-- The exponent multiplied by `n`: first in 32 bits, and the product is then tested for the range
    of exponents. -/
def scaled? (e : Exponent) (n : Int) : Option Exponent :=
  (product32? e.val n).bind ofInt?

/-- What does not fit 32 bits is no exponent either, so the exact product decides. -/
theorem scaled?_eq (e : Exponent) (n : Int) : e.scaled? n = ofInt? (e.val * n) := by
  unfold scaled? product32?
  split
  · rfl
  · next outside =>
      have unrepresented : ¬(-128 ≤ e.val * n ∧ e.val * n ≤ 127) := by omega
      rw [ofInt?, dif_neg unrepresented]
      rfl

end Exponent

/-- One exponent for each base quantity. -/
structure Dimension where
  length : Exponent
  time : Exponent
  mass : Exponent
  current : Exponent
  temperature : Exponent
deriving DecidableEq, Inhabited

namespace Dimension

/-- The exponent vector of a dimension. -/
def exponent (d : Dimension) : BaseQuantity → Int
  | .length => d.length.val
  | .time => d.time.val
  | .mass => d.mass.val
  | .current => d.current.val
  | .temperature => d.temperature.val

/-- The dimension of five exponents, if there are all five. -/
def ofParts? : (length time mass current temperature : Option Exponent) → Option Dimension
  | some length, some time, some mass, some current, some temperature =>
    some ⟨length, time, mass, current, temperature⟩
  | _, _, _, _, _ => none

/-- The dimension with a given exponent vector, if all five exponents are in range. -/
def ofExponents? (f : BaseQuantity → Int) : Option Dimension :=
  ofParts? (Exponent.ofInt? (f .length)) (Exponent.ofInt? (f .time)) (Exponent.ofInt? (f .mass))
    (Exponent.ofInt? (f .current)) (Exponent.ofInt? (f .temperature))

/-- Dimensions with the same exponent vector are equal. -/
theorem ext_exponent {a b : Dimension} (h : ∀ q, a.exponent q = b.exponent q) : a = b := by
  obtain ⟨⟨l, _, _⟩, ⟨t, _, _⟩, ⟨m, _, _⟩, ⟨i, _, _⟩, ⟨k, _, _⟩⟩ := a
  obtain ⟨⟨l', _, _⟩, ⟨t', _, _⟩, ⟨m', _, _⟩, ⟨i', _, _⟩, ⟨k', _, _⟩⟩ := b
  have hl := h .length
  have ht := h .time
  have hm := h .mass
  have hi := h .current
  have hk := h .temperature
  simp only [exponent] at hl ht hm hi hk
  subst hl ht hm hi hk
  rfl

theorem ofExponents?_eq_some_iff {f : BaseQuantity → Int} {d : Dimension} :
    ofExponents? f = some d ↔ ∀ q, d.exponent q = f q := by
  constructor
  · intro h
    simp only [ofExponents?, ofParts?] at h
    split at h
    · next hl ht hm hi hk =>
      simp only [Option.some.injEq] at h
      subst h
      intro q
      cases q <;> simp only [exponent]
      · exact Exponent.ofInt?_eq_some_iff.1 hl
      · exact Exponent.ofInt?_eq_some_iff.1 ht
      · exact Exponent.ofInt?_eq_some_iff.1 hm
      · exact Exponent.ofInt?_eq_some_iff.1 hi
      · exact Exponent.ofInt?_eq_some_iff.1 hk
    · simp at h
  · intro h
    have hl := Exponent.ofInt?_eq_some_iff.2 (h .length)
    have ht := Exponent.ofInt?_eq_some_iff.2 (h .time)
    have hm := Exponent.ofInt?_eq_some_iff.2 (h .mass)
    have hi := Exponent.ofInt?_eq_some_iff.2 (h .current)
    have hk := Exponent.ofInt?_eq_some_iff.2 (h .temperature)
    simp [ofExponents?, ofParts?, hl, ht, hm, hi, hk]

theorem exponent_range (d : Dimension) (q : BaseQuantity) :
    -128 ≤ d.exponent q ∧ d.exponent q ≤ 127 := by
  cases q <;> exact ⟨Exponent.lower _, Exponent.upper _⟩

/-! ### Arithmetic -/

/-- Exponents add. -/
def mul? (a b : Dimension) : Option Dimension :=
  ofExponents? fun q => a.exponent q + b.exponent q

/-- Exponents subtract. -/
def div? (a b : Dimension) : Option Dimension :=
  ofExponents? fun q => a.exponent q - b.exponent q

/-- Exponents are multiplied by `n`. -/
def pow? (a : Dimension) (n : Int) : Option Dimension :=
  ofParts? (a.length.scaled? n) (a.time.scaled? n) (a.mass.scaled? n) (a.current.scaled? n)
    (a.temperature.scaled? n)

/-- A power has the exact products for its exponents, if they are all in range. -/
theorem pow?_eq (a : Dimension) (n : Int) :
    a.pow? n = ofExponents? fun q => a.exponent q * n := by
  simp only [pow?, ofExponents?, exponent, Exponent.scaled?_eq]

def dimensionless : Dimension :=
  ⟨.zero, .zero, .zero, .zero, .zero⟩

def isDimensionless (d : Dimension) : Bool := d = dimensionless

/-! ### Named dimensions -/

/-- A dimension written down by its exponents in declaration order. -/
def ofList (length time mass current temperature : Int)
    (inRange : ∀ n ∈ [length, time, mass, current, temperature], -128 ≤ n ∧ n ≤ 127 := by decide) :
    Dimension where
  length := ⟨length, (inRange length (by simp)).1, (inRange length (by simp)).2⟩
  time := ⟨time, (inRange time (by simp)).1, (inRange time (by simp)).2⟩
  mass := ⟨mass, (inRange mass (by simp)).1, (inRange mass (by simp)).2⟩
  current := ⟨current, (inRange current (by simp)).1, (inRange current (by simp)).2⟩
  temperature := ⟨temperature, (inRange temperature (by simp)).1, (inRange temperature (by simp)).2⟩

/-- The dimension of one base quantity. -/
def base : BaseQuantity → Dimension
  | .length => ofList 1 0 0 0 0
  | .time => ofList 0 1 0 0 0
  | .mass => ofList 0 0 1 0 0
  | .current => ofList 0 0 0 1 0
  | .temperature => ofList 0 0 0 0 1

def area : Dimension := ofList 2 0 0 0 0

def volume : Dimension := ofList 3 0 0 0 0

def velocity : Dimension := ofList 1 (-1) 0 0 0

def acceleration : Dimension := ofList 1 (-2) 0 0 0

def force : Dimension := ofList 1 (-2) 1 0 0

def energy : Dimension := ofList 2 (-2) 1 0 0

def power : Dimension := ofList 2 (-3) 1 0 0

def pressure : Dimension := ofList (-1) (-2) 1 0 0

def frequency : Dimension := ofList 0 (-1) 0 0 0

def charge : Dimension := ofList 0 1 0 1 0

def voltage : Dimension := ofList 2 (-3) 1 (-1) 0

def resistance : Dimension := ofList 2 (-3) 1 (-2) 0

def density : Dimension := ofList (-3) 0 1 0 0

/-- The kinds of quantity that have a name of their own. -/
def named : List (Dimension × String) :=
  [(dimensionless, "dimensionless"),
   (base .length, "length"),
   (base .time, "time"),
   (base .mass, "mass"),
   (base .current, "electric current"),
   (base .temperature, "temperature"),
   (area, "area"),
   (volume, "volume"),
   (velocity, "velocity"),
   (acceleration, "acceleration"),
   (force, "force"),
   (energy, "energy"),
   (power, "power"),
   (pressure, "pressure"),
   (frequency, "frequency"),
   (charge, "electric charge"),
   (voltage, "voltage"),
   (resistance, "resistance"),
   (density, "density")]

/-- The name of the kind of quantity, if it has one. -/
def name? (d : Dimension) : Option String :=
  (named.find? fun entry => entry.1 = d).map (·.2)

/-! ### Written forms -/

/-- A decimal digit raised above the line. -/
def superscriptDigit : Char → Char
  | '0' => '⁰'
  | '1' => '¹'
  | '2' => '²'
  | '3' => '³'
  | '4' => '⁴'
  | '5' => '⁵'
  | '6' => '⁶'
  | '7' => '⁷'
  | '8' => '⁸'
  | '9' => '⁹'
  | other => other

/-- A symbol with its exponent; the first power is not written. -/
def symbolPower (symbol : List Char) (power : Nat) : List Char :=
  if power = 1 then symbol else symbol ++ (Nat.toDigits 10 power).map superscriptDigit

/-- The symbols of the base quantities whose exponent passes a test, each with its magnitude. -/
def factors (d : Dimension) (symbol : BaseQuantity → List Char) (side : Int → Bool) :
    List (List Char) :=
  (BaseQuantity.writingOrder.filter fun q => side (d.exponent q)).map fun q =>
    symbolPower (symbol q) (d.exponent q).natAbs

/-- Positive powers over negative ones; `1` stands for an empty side above the line. -/
def fraction (d : Dimension) (symbol : BaseQuantity → List Char) (join slash : List Char) :
    List Char :=
  let above := d.factors symbol fun e => decide (0 < e)
  let below := d.factors symbol fun e => decide (e < 0)
  let numerator := if above.isEmpty then ['1'] else join.intercalate above
  if below.isEmpty then numerator else numerator ++ slash ++ join.intercalate below

/-- The dimension in coherent units, such as `kg·m/s²`. -/
def siSymbol (d : Dimension) : String :=
  String.ofList (d.fraction BaseQuantity.unitSymbol ['·'] ['/'])

/-- The dimension in letters of quantities, such as `M L / T²`. -/
def text (d : Dimension) : String :=
  String.ofList (d.fraction BaseQuantity.letter [' '] [' ', '/', ' '])

/-- The dimension as a structural dump. -/
def inspect (d : Dimension) : String :=
  String.join ["Dimension \x7b length: ", toString d.length.val, ", time: ", toString d.time.val,
    ", mass: ", toString d.mass.val, ", current: ", toString d.current.val,
    ", temperature: ", toString d.temperature.val, " \x7d"]

example : force.siSymbol = "kg·m/s²" := by decide +kernel
example : (ofList 0 (-10) 0 0 0).text = "1 / T¹⁰" := by decide +kernel

end Dimension

end Metrology
