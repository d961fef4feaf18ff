/-
Module: Metrology.Binary.Width
Layer: Numbers
Purpose: The two binary interchange formats a quantity can carry. Every finite value of a format is
  a whole number of its smallest positive value, so a format is fixed by how many significant bits
  it keeps, by the size of that unit, and by how far a significand can be shifted.
Imports: Metrology.Rounding
Main exports: Width, Width.Holds, Width.roundUnits
-/
import Metrology.Rounding

namespace Metrology

/-- Single precision has 32 bits, double precision 64. -/
inductive Width where
  | single
  | double
deriving DecidableEq, Repr, Inhabited

namespace Width

/-- Significant bits, the leading one included. -/
def precision : Width → Nat
  | single => 24
  | double => 53

/-- The smallest positive value is `2 ^ (-scale)`; all finite values are counted in it. -/
def scale : Width → Nat
  | single => 149
  | double => 1074

/-- How far a significand can be shifted left before the format overflows. -/
def maxShift : Width → Nat
  | single => 253
  | double => 2045

/-- Bits of the whole encoding. -/
def bits : Width → Nat
  | single => 32
  | double => 64

/-- One, counted in the format's smallest value. -/
def one (w : Width) : Nat := 2 ^ w.scale

/-- How far the significand of `n` is shifted: zero while `n` itself fits into `precision` bits. -/
def shiftOf (w : Width) (n : Nat) : Nat := n.log2 + 1 - w.precision

/-- The magnitudes that the format holds exactly: at most `precision` significant bits, and below
    the overflow threshold. -/
def Holds (w : Width) (n : Nat) : Prop :=
  n < 2 ^ (w.precision + w.maxShift) ∧ n % 2 ^ w.shiftOf n = 0

instance (w : Width) (n : Nat) : Decidable (w.Holds n) :=
  inferInstanceAs (Decidable (_ ∧ _))

/-- The exact quotient rounded once to `precision` bits, ties to even, with no upper limit. -/
def roundUnits (w : Width) (num den : Nat) : Nat :=
  let step := 2 ^ w.shiftOf (num / den)
  divRound .even num (den * step) * step

/-- What fits into `precision` bits is held exactly. -/
theorem holds_of_lt {w : Width} {n : Nat} (h : n < 2 ^ w.precision) : w.Holds n := by
  refine ⟨Nat.lt_of_lt_of_le h (Nat.pow_le_pow_right (by decide) (Nat.le_add_right _ _)), ?_⟩
  have shift : w.shiftOf n = 0 := by
    by_cases zero : n = 0
    · subst zero; cases w <;> decide
    · have := (Nat.log2_lt zero).2 h
      unfold shiftOf
      omega
  rw [shift, Nat.pow_zero, Nat.mod_one]

/-- Powers of two below the overflow threshold are held exactly. -/
theorem holds_two_pow {w : Width} {k : Nat} (h : k < w.precision + w.maxShift) :
    w.Holds (2 ^ k) := by
  refine ⟨Nat.pow_lt_pow_right (by decide) h, ?_⟩
  apply Nat.mod_eq_zero_of_dvd
  apply Nat.pow_dvd_pow
  have : 0 < w.precision := by cases w <;> decide
  unfold shiftOf
  rw [Nat.log2_two_pow]
  omega

theorem holds_zero (w : Width) : w.Holds 0 := holds_of_lt (Nat.two_pow_pos _)

theorem holds_one (w : Width) : w.Holds w.one :=
  holds_two_pow (by cases w <;> decide)

end Width

end Metrology
