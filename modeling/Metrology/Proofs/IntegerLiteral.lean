/-
Module: Metrology.Proofs.IntegerLiteral
Layer: Proofs
Purpose: Integer literals in the four bases. The digits of an integer literal denote a number by
  their places, whatever `_` stand between them; the reader takes them in one at a time, with a
  limit on every step, and gives that number if it is below the limit and an overflow otherwise.
  There is no other way to a whole number.
Imports: Mathlib.Data.Nat.Digits.Defs, Metrology.Proofs.LiteralValue
Main exports: placeValue, IntegerText, numeral_eq_placeValue, IntegerText.exists_digits,
  Literal.exists_integerText_of_read, Literal.read_integer
-/
import Mathlib.Data.Nat.Digits.Defs
import Metrology.Proofs.LiteralValue

namespace Metrology

/-! ### Integer literals -/

/-- The number whose digits these are: each counts as often as its place says. -/
def placeValue (radix : Nat) (cs : List Char) : Nat :=
  Nat.ofDigits radix (digitValues radix cs).reverse

/-- The texts of integer literals, with their base and the number that they denote. -/
inductive IntegerText : Base → List Char → Nat → Prop where
  | decimal {digits : List Char} (isWhole : DecimalWhole digits) :
      IntegerText .decimal digits (placeValue 10 digits)
  | hexadecimal {digits : List Char} (run : Digits 16 digits) :
      IntegerText .hexadecimal ('0' :: 'x' :: digits) (placeValue 16 digits)
  | octal {digits : List Char} (run : Digits 8 digits) :
      IntegerText .octal ('0' :: 'o' :: digits) (placeValue 8 digits)
  | binary {digits : List Char} (run : Digits 2 digits) :
      IntegerText .binary ('0' :: 'b' :: digits) (placeValue 2 digits)

/-- Taken in from the first one on, the digits come to the number that their places give. -/
theorem numeral_eq_placeValue (radix : Nat) (cs : List Char) :
    numeral radix cs = placeValue radix cs := by
  have step : (fun value digit => value * radix + digit) =
      fun value digit : Nat => (digit : Nat) + radix * value := by
    funext value digit
    rw [Nat.mul_comm, Nat.add_comm]
  rw [numeral, positional, placeValue, Nat.ofDigits_eq_foldr, List.foldr_reverse, step]
  rfl

section Announced

variable {base : Base} {cs digits : List Char} {n : Nat}

/-- After its announcement an integer literal is a run of digits without a superfluous zero. -/
theorem IntegerText.exists_digits (h : IntegerText base cs n) :
    ∃ digits, Base.split cs = (base, digits) ∧ Digits base.radix digits ∧
      (base = .decimal → Literal.hasLeadingZero digits = false) ∧
      n = numeral base.radix digits := by
  cases h with
  | decimal isWhole =>
      have noEnding : Ending .decimal [] := .plain .absent
      have announced := isWhole.split noEnding
      have noZero := isWhole.hasLeadingZero noEnding
      rw [List.append_nil] at announced noZero
      exact ⟨cs, announced, isWhole.digits, fun _ => noZero, (numeral_eq_placeValue 10 cs).symm⟩
  | hexadecimal run | octal run | binary run =>
      exact ⟨_, rfl, run, nofun, (numeral_eq_placeValue _ _).symm⟩

/-- A run of digits without a superfluous zero is an integer literal after its announcement. -/
theorem integerText_of_split (announced : Base.split cs = (base, digits))
    (run : Digits base.radix digits)
    (noZero : base = .decimal → Literal.hasLeadingZero digits = false) :
    IntegerText base cs (numeral base.radix digits) := by
  rw [Base.eq_of_split announced, numeral_eq_placeValue]
  cases base with
  | decimal => exact .decimal (run.decimalWhole (noZero rfl))
  | hexadecimal => exact .hexadecimal run
  | octal => exact .octal run
  | binary => exact .binary run

end Announced

/-! ### The reader -/

namespace Literal

variable {text : String} {base : Base} {digits : List Char} {n : Nat}

/-- Digits after their announcement have no defect. -/
theorem sound_of_digits (announced : Base.split text.toList = (base, digits))
    (run : Digits base.radix digits) (noZero : base = .decimal → hasLeadingZero digits = false) :
    Sound text base digits := by
  obtain ⟨c, rest, same, -⟩ := run.head
  refine ⟨announced, same ▸ List.cons_ne_nil c rest, noZero, .inr (.inl ?_)⟩
  exact ⟨digits, [], (List.append_nil _).symm, run, .plain .absent⟩

/-- Only integer literals are read as whole numbers. -/
theorem exists_integerText_of_read (h : read text = .ok (.whole n)) :
    n < wholeLimit ∧ ∃ base, IntegerText base text.toList n := by
  obtain ⟨base, digits, sound⟩ := Taken.sound (.inl ⟨_, h⟩)
  have inner : ∀ c ∈ digits, base.Inner c := by
    by_contra separated
    have separated : ∃ c ∈ digits, ¬ base.Inner c := by simpa using separated
    rw [sound.read_real separated] at h
    split at h
    · exact (ofHexText_isReal _).ne_whole n h
    · exact (ofDecimalText_isReal _).ne_whole n h
  rw [sound.read_whole inner] at h
  split at h
  · next below =>
      obtain rfl := whole.inj (Except.ok.inj h)
      have run := sound.complete.digits sound.nonempty inner
      exact ⟨below, base, integerText_of_split sound.announced run sound.noZero⟩
  · cases h

/-- An integer literal of any length is read as the number that it denotes, and is out of range from
    `2 ^ 128` on. -/
theorem read_integer (integer : IntegerText base text.toList n) :
    read text = if n < 2 ^ 128 then .ok (.whole n) else .error .overflow := by
  obtain ⟨digits, announced, run, noZero, rfl⟩ := integer.exists_digits
  exact (sound_of_digits announced run noZero).read_whole run.inner

theorem read_integer_limit :
    (IntegerText .hexadecimal "0x1_00000000000000000000000000000000".toList (2 ^ 128) ∧
      read "0x1_00000000000000000000000000000000" = .error .overflow) ∧
    (IntegerText .decimal "340282366920938463463374607431768211455".toList (2 ^ 128 - 1) ∧
      read "340282366920938463463374607431768211455" = .ok (.whole (2 ^ 128 - 1))) := by
  have least : IntegerText .hexadecimal "0x1_00000000000000000000000000000000".toList (2 ^ 128) :=
    have value : placeValue 16 "1_00000000000000000000000000000000".toList = 2 ^ 128 := by
      decide +kernel
    value ▸ .hexadecimal (.separated rfl (.of_isDigitOf (List.all_eq_true.1 rfl)))
  have most : IntegerText .decimal "340282366920938463463374607431768211455".toList (2 ^ 128 - 1) :=
    have value : placeValue 10 "340282366920938463463374607431768211455".toList = 2 ^ 128 - 1 := by
      decide +kernel
    value ▸ .decimal (.positive (by decide) (.of_isDigitOf (List.all_eq_true.1 rfl)))
  exact ⟨⟨least, read_integer least⟩, most, read_integer most⟩

end Literal

end Metrology
