/-
Module: Metrology.Binary.Value
Layer: Numbers
Purpose: Binary floating-point values as exact integers. A finite value is a sign and a count of the
  format's smallest value; every operation computes its exact result and rounds it once, to nearest
  with ties to even, overflowing to infinity. There is one not-a-number, and zero keeps its sign.
Imports: Metrology.Binary.Width
Main exports: Binary, Binary.ofRatio, add, sub, mul, div, power, compare?, convert, toBits
-/
import Metrology.Binary.Width

namespace Metrology

/-- A value of the format `w`. -/
inductive Binary (w : Width) where
  | nan
  | infinite (negative : Bool)
  | finite (negative : Bool) (units : Nat) (holds : w.Holds units)
deriving DecidableEq

/-- Double precision. -/
abbrev Double := Binary .double

/-- Single precision. -/
abbrev Single := Binary .single

namespace Binary

variable {w : Width}

/-! ### Building values -/

/-- The value of a magnitude that is already rounded; one past the format's range is infinite. -/
def ofRounded (negative : Bool) (units : Nat) : Binary w :=
  if h : w.Holds units then .finite negative units h else .infinite negative

/-- The exact number of units `num / den`, rounded once. -/
def ofRatio (negative : Bool) (num den : Nat) : Binary w :=
  ofRounded negative (w.roundUnits num den)

def zero (negative : Bool) : Binary w := .finite negative 0 w.holds_zero

def one : Binary w := .finite false w.one w.holds_one

def ofNat (n : Nat) : Binary w := ofRatio false (n * w.one) 1

instance : Inhabited (Binary w) := ⟨zero false⟩

/-! ### Views -/

def isFinite : Binary w → Bool
  | .finite .. => true
  | _ => false

def isNan : Binary w → Bool
  | .nan => true
  | _ => false

/-- The integer that a whole finite value denotes. -/
def toInt? : Binary w → Option Int
  | .finite negative units _ =>
    if units % w.one = 0 then
      some (if negative then -((units / w.one : Nat) : Int) else (units / w.one : Nat))
    else none
  | _ => none

/-- Above zero and not infinite: what the factor of a unit has to be. -/
def isPositiveFinite : Binary w → Bool
  | .finite negative units _ => !negative && units != 0
  | _ => false

/-! ### Arithmetic -/

def neg : Binary w → Binary w
  | .nan => .nan
  | .infinite negative => .infinite !negative
  | .finite negative units h => .finite (!negative) units h

/-- A signed sum of units rounded once; an exact zero is negative only if both terms were. -/
def ofSum (bothNegative : Bool) (sum : Int) : Binary w :=
  if sum = 0 then zero bothNegative else ofRatio (decide (sum < 0)) sum.natAbs 1

def add : Binary w → Binary w → Binary w
  | .nan, _ => .nan
  | _, .nan => .nan
  | .infinite s, .infinite t => if s = t then .infinite s else .nan
  | .infinite s, .finite .. => .infinite s
  | .finite .., .infinite t => .infinite t
  | .finite s m _, .finite t n _ =>
    ofSum (s && t) ((if s then -(m : Int) else m) + (if t then -(n : Int) else n))

def sub (a b : Binary w) : Binary w := add a (neg b)

def mul : Binary w → Binary w → Binary w
  | .nan, _ => .nan
  | _, .nan => .nan
  | .infinite s, .infinite t => .infinite (s ^^ t)
  | .infinite s, .finite t n _ => if n = 0 then .nan else .infinite (s ^^ t)
  | .finite s m _, .infinite t => if m = 0 then .nan else .infinite (s ^^ t)
  | .finite s m _, .finite t n _ => ofRatio (s ^^ t) (m * n) w.one

def div : Binary w → Binary w → Binary w
  | .nan, _ => .nan
  | _, .nan => .nan
  | .infinite _, .infinite _ => .nan
  | .infinite s, .finite t _ _ => .infinite (s ^^ t)
  | .finite s _ _, .infinite t => zero (s ^^ t)
  | .finite s m _, .finite t n _ =>
    if n = 0 then (if m = 0 then .nan else .infinite (s ^^ t))
    else ofRatio (s ^^ t) (m * w.one) n

instance : Neg (Binary w) := ⟨neg⟩
instance : Add (Binary w) := ⟨add⟩
instance : Sub (Binary w) := ⟨sub⟩
instance : Mul (Binary w) := ⟨mul⟩
instance : Div (Binary w) := ⟨div⟩

/-- Multiplies `acc` by `base ^ count`, squaring the base once per binary digit of `count`. -/
def squareMultiply (acc base : Binary w) (count : Nat) : Binary w :=
  let acc := if count % 2 = 1 then acc * base else acc
  if count / 2 = 0 then acc else squareMultiply acc (base * base) (count / 2)
termination_by count
decreasing_by omega

/-- Multiplies `acc` by `base`, `count` times over. -/
def multiplyRepeatedly (acc base : Binary w) : Nat → Binary w
  | 0 => acc
  | count + 1 => multiplyRepeatedly (acc * base) base count

/-- A whole power of a number by squaring; a negative one is the reciprocal of the positive one. -/
def power (base : Binary w) (n : Int) : Binary w :=
  let magnitude := squareMultiply one base n.natAbs
  if n < 0 then one / magnitude else magnitude

/-! ### Comparison -/

/-- The numeric order, in which both zeros are equal and a not-a-number has no place. -/
def compare? : Binary w → Binary w → Option Ordering
  | .nan, _ => none
  | _, .nan => none
  | .infinite s, .infinite t => some (Ord.compare (!s) (!t))
  | .infinite s, .finite .. => some (if s then .lt else .gt)
  | .finite .., .infinite t => some (if t then .gt else .lt)
  | .finite s m _, .finite t n _ =>
    some (Ord.compare (if s then -(m : Int) else m) (if t then -(n : Int) else n))

/-- Numeric equality: zeros of both signs are equal, and nothing equals a not-a-number. -/
def numericEq (a b : Binary w) : Bool := compare? a b == some .eq

def numericLt (a b : Binary w) : Bool := compare? a b == some .lt

/-! ### Formats and encodings -/

/-- The same number in another format, rounded once. -/
def convert {v : Width} (w : Width) : Binary v → Binary w
  | .nan => .nan
  | .infinite negative => .infinite negative
  | .finite negative units _ => ofRatio negative (units * w.one) v.one

/-- The interchange encoding. A significand that fits without a shift is its own encoding; each
    further shift adds one to the biased exponent. -/
def toBits : Binary w → Nat
  | .nan => (w.maxShift + 2) * 2 ^ (w.precision - 1) + 2 ^ (w.precision - 2)
  | .infinite negative => sign negative + (w.maxShift + 2) * 2 ^ (w.precision - 1)
  | .finite negative units _ =>
    let shift := w.shiftOf units
    sign negative + (shift * 2 ^ (w.precision - 1) + units / 2 ^ shift)
where
  sign (negative : Bool) : Nat := if negative then 2 ^ (w.bits - 1) else 0

/-! ### Small laws -/

@[simp] theorem neg_neg (a : Binary w) : neg (neg a) = a := by
  cases a <;> simp [neg]

theorem isPositiveFinite_one : (one : Binary w).isPositiveFinite = true := by
  simp [one, isPositiveFinite, Width.one]

theorem isFinite_of_isPositiveFinite {a : Binary w} (h : a.isPositiveFinite = true) :
    a.isFinite = true := by
  cases a <;> simp_all [isPositiveFinite, isFinite]

example : (one / ofNat 3 : Double).toBits = 0x3fd5555555555555 := by decide +kernel
example : (ofNat (2 ^ 53 + 1) : Double).toBits = 0x4340000000000000 := by decide +kernel
example : (ofNat 3 : Single).toBits = 0x40400000 := by decide +kernel

end Binary

end Metrology
