/-
Module: Metrology.Proofs.DecimalText
Layer: Proofs
Purpose: What the reader of decimals makes of digits. Digits alone are a whole number, and a point
  among digits divides it by a power of ten. Zeros in front of a number change nothing, and zeros
  behind it are a power of ten.
Imports: Mathlib.Data.List.TakeWhile, Metrology.Decimal.Reader, Metrology.Proofs.LiteralValue
Main exports: length_digitValues, numeral_append, numeral_append_zeros, numeral_zeros_append,
  Decimal.read?_digits, Decimal.read?_point
-/
import Mathlib.Data.List.TakeWhile
import Metrology.Decimal.Reader
import Metrology.Proofs.LiteralValue

namespace Metrology

/-! ### Numerals -/

theorem length_digitValues {cs : List Char} (all : ∀ c ∈ cs, isDigitOf 10 c = true) :
    (digitValues 10 cs).length = cs.length := by
  induction cs with
  | nil => rfl
  | cons c cs ih =>
      obtain ⟨digit, others⟩ := List.forall_mem_cons.1 all
      obtain ⟨value, isValue⟩ := Option.isSome_iff_exists.1 digit
      have rest := ih others
      rw [digitValues] at rest ⊢
      rw [List.filterMap_cons_some isValue, List.length_cons, rest, List.length_cons]

theorem numeral_append (front back : List Char) :
    numeral 10 (front ++ back) =
      (digitValues 10 back).foldl (fun value digit => value * 10 + digit) (numeral 10 front) := by
  rw [numeral, digitValues_append, positional_append, numeral]

/-- Zeros behind a number are a power of ten. -/
theorem numeral_append_zeros (cs : List Char) (k : Nat) :
    numeral 10 (cs ++ List.replicate k '0') = numeral 10 cs * 10 ^ k := by
  induction k with
  | zero => simp
  | succ k ih =>
      have last : digitValues 10 ['0'] = [0] := rfl
      rw [List.replicate_succ', ← List.append_assoc, numeral_append, last, List.foldl_cons,
        List.foldl_nil, ih, Nat.add_zero, Nat.pow_succ, Nat.mul_assoc]

/-- Zeros in front of a number change nothing. -/
theorem numeral_zeros_append (k : Nat) (cs : List Char) :
    numeral 10 (List.replicate k '0' ++ cs) = numeral 10 cs := by
  have zeros : numeral 10 (List.replicate k '0') = 0 := by
    simpa [numeral, digitValues, positional] using numeral_append_zeros [] k
  rw [numeral_append, zeros]
  rfl

/-! ### Decimals -/

namespace Decimal

/-- Digits alone are a whole number. -/
theorem read?_digits {cs : List Char} (nonempty : cs ≠ [])
    (all : ∀ c ∈ cs, isDigitOf 10 c = true) : read? cs = some ⟨numeral 10 cs, 0⟩ := by
  have whole : cs.takeWhile (isDigitOf 10) = cs := List.takeWhile_eq_self_iff.2 all
  have rest : cs.dropWhile (isDigitOf 10) = [] := List.dropWhile_eq_nil_iff.2 all
  simp [read?, whole, rest, nonempty, ofDigits, digitValues, numeral]

/-- Digits on both sides of a point are a number with a fraction. -/
theorem read?_point {front back : List Char} (nonempty : front ≠ [])
    (inFront : ∀ c ∈ front, isDigitOf 10 c = true) (inBack : ∀ c ∈ back, isDigitOf 10 c = true) :
    read? (front ++ '.' :: back) = some ⟨numeral 10 (front ++ back), -(back.length : Int)⟩ := by
  have point : isDigitOf 10 '.' = false := rfl
  have whole : (front ++ '.' :: back).takeWhile (isDigitOf 10) = front := by
    rw [List.takeWhile_append_of_pos inFront]
    simp [point]
  have rest : (front ++ '.' :: back).dropWhile (isDigitOf 10) = '.' :: back := by
    rw [List.dropWhile_append_of_pos inFront]
    simp [point]
  have fraction : back.takeWhile (isDigitOf 10) = back := List.takeWhile_eq_self_iff.2 inBack
  have none : back.dropWhile (isDigitOf 10) = [] := List.dropWhile_eq_nil_iff.2 inBack
  simp [read?, whole, rest, fraction, none, nonempty, ofDigits, numeral, digitValues_append,
    length_digitValues inBack]

end Decimal

end Metrology
