/-
Module: Metrology.Proofs.LiteralSpellings
Layer: Proofs
Purpose: Whole numbers spelled with a fraction of zero or a power of zero. Every integer literal in
  base ten or sixteen goes on to such a spelling, and the spelling is read as a number that is no
  integer. In base ten it is rounded once, as the integer is when its value is asked for, and so the
  values are the same. In base sixteen it is rounded after every digit, and so they are the same
  exactly if no tie is lost.
Imports: Metrology.Proofs.DecimalText, Metrology.Proofs.HexadecimalLiteral,
  Metrology.Proofs.IntegerLiteral, Metrology.Proofs.WholeText
Main exports: Base.split_append, Literal.sound_append, Literal.ofDecimalText_eq,
  Literal.read_decimal_spellings, HexNumber.read_text_of_digitwise,
  Literal.read_hexadecimal_spellings, Literal.ofNat_digitwise_eq_iff, Literal.value_spellings
-/
import Metrology.Proofs.DecimalText
import Metrology.Proofs.HexadecimalLiteral
import Metrology.Proofs.IntegerLiteral
import Metrology.Proofs.WholeText

namespace Metrology

open Binary (ofNat)

/-! ### Longer spellings -/

section Append

variable {base : Base} {cs digits ending : List Char} {text : String}

/-- What follows the digits does not change the announcement. -/
theorem Base.split_append (announced : Base.split cs = (base, digits))
    (run : Digits base.radix digits)
    (noZero : base = .decimal → Literal.hasLeadingZero digits = false)
    (after : Ending base ending) : Base.split (cs ++ ending) = (base, digits ++ ending) := by
  rw [Base.eq_of_split announced]
  cases base with
  | hexadecimal | octal | binary => rfl
  | decimal => exact (run.decimalWhole (noZero rfl)).split after

/-- An integer literal goes on with a fraction, a power, or both. -/
theorem Literal.sound_append (announced : Base.split text.toList = (base, digits))
    (run : Digits base.radix digits) (noZero : base = .decimal → hasLeadingZero digits = false)
    (after : Ending base ending) :
    Sound (text ++ String.ofList ending) base (digits ++ ending) where
  announced := by
    rw [String.toList_append, String.toList_ofList]
    exact Base.split_append announced run noZero after
  nonempty := by
    obtain ⟨c, rest, rfl, -⟩ := run.head
    exact List.cons_ne_nil c _
  noZero := by
    rintro rfl
    exact (run.decimalWhole (noZero rfl)).hasLeadingZero after
  complete := .inr (.inl ⟨digits, ending, rfl, run, after⟩)

end Append

/-! ### Decimal spellings -/

/-- Digits before a point and a zero. -/
theorem Decimal.read?_point_zero {cs : List Char} (nonempty : cs ≠ [])
    (all : ∀ c ∈ cs, isDigitOf 10 c = true) :
    Decimal.read? (cs ++ ['.', '0']) = some ⟨positional 10 (digitValues 10 cs) * 10, -1⟩ := by
  have tenfold : numeral 10 (cs ++ ['0']) = numeral 10 cs * 10 := numeral_append_zeros cs 1
  rw [Decimal.read?_point nonempty all (List.forall_mem_singleton.2 rfl), tenfold]
  rfl

/-- Digits before a power of zero. -/
theorem Decimal.read?_power {cs : List Char} (nonempty : cs ≠ [])
    (all : ∀ c ∈ cs, isDigitOf 10 c = true) :
    Decimal.read? (cs ++ ['e', '0']) = some ⟨positional 10 (digitValues 10 cs), 0⟩ := by
  have some_ : cs.isEmpty = false := List.isEmpty_eq_false_iff.2 nonempty
  have boundary : ∀ c ∈ ['e', '0'].head?, isDigitOf 10 c = false := by
    rintro c ⟨⟩
    rfl
  have power : readInt? ['0'] = some 0 := rfl
  simp [Decimal.read?, takeWhile_append_eq all boundary, dropWhile_append_eq all boundary, some_,
    power, Decimal.ofDigits, digitValues]

namespace Literal

variable {text : String} {digits ending : List Char} {n k : Nat}

/-- Whole literals, also with a further digit, are far below the largest double. -/
theorem wholeLimit_le : 2 ^ 5 * wholeLimit ≤ 2 ^ Width.double.topExponent := by decide +kernel

theorem isFinite_ofNat (below : n < wholeLimit) : (ofNat n : Double).isFinite = true := by
  have room := wholeLimit_le
  exact Binary.isFinite_ofNat (by omega)

/-- A decimal that denotes a whole number is rounded once, whatever zeros are behind its point. -/
theorem ofDecimalText_eq {cs : List Char} (read : Decimal.read? cs = some ⟨n * 10 ^ k, -k⟩)
    (few : k ≤ 400) (below : n < wholeLimit) : ofDecimalText cs = .ok (.real (ofNat n)) := by
  have limit : wholeLimit ≤ 10 ^ 39 := by decide +kernel
  have places : digitCount (n * 10 ^ k) ≤ 39 + k := by
    refine digitCount_le (by omega) ?_
    rw [Nat.pow_add]
    exact Nat.mul_lt_mul_of_pos_right (Nat.lt_of_lt_of_le below limit) (Nat.pow_pos (by decide))
  have value : Decimal.toBinary .double false ⟨n * 10 ^ k, -k⟩ = ofNat n := by
    apply Decimal.toBinary_eq_ofNat
    · simp [Decimal.num, Decimal.den]
    · simp only [Decimal.magnitude]
      omega
    · simp only [Decimal.magnitude]
      omega
  rw [ofDecimalText, read]
  simp only [value, ofDouble, isFinite_ofNat below, if_true]

/-- With a fraction or a power a decimal integer literal is read as a decimal. -/
theorem read_decimal_append (announced : Base.split text.toList = (.decimal, digits))
    (run : Digits 10 digits) (noZero : hasLeadingZero digits = false)
    (after : Ending .decimal ending) (some_ : ending ≠ []) :
    read (text ++ String.ofList ending) =
      ofDecimalText (plainChars digits ++ plainChars ending) := by
  have sound := sound_append announced run (fun _ => noZero) after
  obtain ⟨c, mem, separates⟩ := after.separates some_
  rw [sound.read_real ⟨c, List.mem_append_right _ mem, separates⟩, if_neg (by decide),
    plainChars_append]

/-- Spelled with zeros, a decimal integer literal is rounded once. -/
theorem read_decimal_spellings (announced : Base.split text.toList = (.decimal, digits))
    (run : Digits 10 digits) (noZero : hasLeadingZero digits = false)
    (below : numeral 10 digits < wholeLimit) :
    read (text ++ ".0") = .ok (.real (ofNat (numeral 10 digits))) ∧
      read (text ++ "e0") = .ok (.real (ofNat (numeral 10 digits))) := by
  have nonempty : plainChars digits ≠ [] := by
    obtain ⟨c, rest, rfl, digit⟩ := run.head
    rw [plainChars_cons (ne_of_isDigitOf digit rfl)]
    exact List.cons_ne_nil c _
  have point := Decimal.read?_point_zero nonempty run.plainChars
  have power := Decimal.read?_power nonempty run.plainChars
  rw [digitValues_plainChars] at point power
  constructor
  · have fraction : Ending .decimal ['.', '0'] := .plain (.present rfl (.single rfl))
    refine (read_decimal_append announced run noZero fraction (List.cons_ne_nil _ _)).trans ?_
    exact @ofDecimalText_eq _ 1 _ point (by decide) below
  · have powered : Ending .decimal ['e', '0'] := .powered .absent (.unsigned rfl (.single rfl))
    refine (read_decimal_append announced run noZero powered (List.cons_ne_nil _ _)).trans ?_
    refine @ofDecimalText_eq _ 0 _ ?_ (by decide) below
    rw [Nat.pow_zero, Nat.mul_one]
    exact power

end Literal

/-! ### Hexadecimal spellings -/

namespace HexNumber

variable {digits : List Char}

/-- Digits with a fraction of zero. -/
def pointZero (run : Digits 16 digits) : HexNumber where
  whole := digits
  fraction := ['.', '0']
  powerText := []
  exponent := 0
  digits := run
  isFraction := .present rfl (.single rfl)
  isPower := .absent
  real := .inl (by decide)

/-- Digits with a power of zero. -/
def powerZero (run : Digits 16 digits) : HexNumber where
  whole := digits
  fraction := []
  powerText := ['p', '0']
  exponent := numeral 10 ['0']
  digits := run
  isFraction := .absent
  isPower := .unsigned rfl (.single rfl)
  real := .inr (by decide)

/-- Where the rounded digits and the power come to a double, the literal is this double. -/
theorem read_text_of_digitwise (t : HexNumber) {x : Double} {m : Nat}
    (rounded : Width.double.digitwise 16 (digitValues 16 (t.whole ++ t.fraction)) = m)
    (exact : x.Denotes (m * 2 ^ t.power)) (below : m < 2 ^ Width.double.topExponent)
    (range : t.power.natAbs < Width.double.topExponent) :
    Literal.read t.text = .ok (.real x) := by
  have inRange : Literal.exponentInRange t.power = true := by
    have top : Width.double.topExponent = 1024 := rfl
    simp only [Literal.exponentInRange, decide_eq_true_iff]
    omega
  rw [t.read_text, t.ofHexText_plainChars, if_pos inRange, Literal.hexMantissa_eq_ofNat, rounded,
    Binary.ofNat_mul_power_two_eq exact below range, Literal.ofDouble, if_pos exact.isFinite]

section Zero

variable {v : Nat} (run : Digits 16 digits)
  (rounded : Width.double.digitwise 16 (digitValues 16 digits) = v)

include rounded

/-- A zero behind the point is taken in, and taken off again by the power. -/
theorem read_pointZero (below : v * 2 ^ 4 < 2 ^ Width.double.topExponent) :
    Literal.read (pointZero run).text = .ok (.real (ofNat v)) := by
  have short : Width.double.Short v := rounded ▸ Width.short_digitwise 16 _
  have zero : digitValues 16 ['.', '0'] = [0] := by decide
  have appended :
      Width.double.digitwise 16 (digitValues 16 (digits ++ ['.', '0'])) = v * 2 ^ 4 := by
    rw [digitValues_append, zero, Width.digitwise_append_singleton, rounded]
    exact Width.nearest_of_short (short.mul_two_pow 4)
  have power : (pointZero run).power = -4 := rfl
  refine (pointZero run).read_text_of_digitwise appended ?_ below (by rw [power]; decide)
  rw [power]
  refine Binary.denotes_of_short ?_ short (Nat.lt_of_le_of_lt ?_ below)
  · rw [Nat.mul_assoc]
    rfl
  · exact Nat.le_mul_of_pos_right v (Nat.two_pow_pos 4)

theorem read_powerZero (below : v < 2 ^ Width.double.topExponent) :
    Literal.read (powerZero run).text = .ok (.real (ofNat v)) := by
  have short : Width.double.Short v := rounded ▸ Width.short_digitwise 16 _
  have appended : Width.double.digitwise 16 (digitValues 16 (digits ++ [])) = v := by
    rw [List.append_nil, rounded]
  have power : (powerZero run).power = 0 := rfl
  refine (powerZero run).read_text_of_digitwise appended ?_ below (by rw [power]; decide)
  rw [power]
  exact Binary.denotes_of_short rfl short below

end Zero

end HexNumber

namespace Literal

variable {text : String} {digits : List Char} {n : Nat}

theorem digitwise_le (digits : List Char) :
    Width.double.digitwise 16 (digitValues 16 digits) ≤ 2 * numeral 16 digits :=
  @Width.digitwise_le .double 4 _ fun _ mem => digitValues_lt mem

/-- Rounded one after the other, the digits come to the integer rounded once, unless a tie is
    lost. -/
theorem ofNat_digitwise_eq_iff (below : numeral 16 digits < wholeLimit) :
    (ofNat (Width.double.digitwise 16 (digitValues 16 digits)) : Double) =
        ofNat (numeral 16 digits) ↔
      ¬ Width.double.LosesTie 16 (numeral 16 digits) := by
  have room := wholeLimit_le
  have bound := digitwise_le digits
  have boundNearest := Width.double.nearest_le (numeral 16 digits)
  rw [← Binary.ofNat_nearest (numeral 16 digits), Binary.ofNat_inj_of_short
    (Width.short_digitwise _ _) (Width.short_nearest _) (by omega) (by omega)]
  exact @Width.digitwise_eq_nearest_iff .double 4 _ fun _ mem => digitValues_lt mem

/-- Spelled with zeros, a hexadecimal integer literal is rounded after every digit. -/
theorem read_hexadecimal_spellings (announced : Base.split text.toList = (.hexadecimal, digits))
    (run : Digits 16 digits) (below : numeral 16 digits < wholeLimit) :
    read (text ++ ".0") = .ok (.real (ofNat (Width.double.digitwise 16 (digitValues 16 digits)))) ∧
      read (text ++ "p0") =
        .ok (.real (ofNat (Width.double.digitwise 16 (digitValues 16 digits)))) := by
  have chars : text.toList = '0' :: 'x' :: digits := Base.eq_of_split announced
  have point : text ++ ".0" = (HexNumber.pointZero run).text := by
    rw [← String.toList_inj, String.toList_append, chars, HexNumber.text, String.toList_ofList]
    simp [HexNumber.chars, HexNumber.pointZero]
  have power : text ++ "p0" = (HexNumber.powerZero run).text := by
    rw [← String.toList_inj, String.toList_append, chars, HexNumber.text, String.toList_ofList]
    simp [HexNumber.chars, HexNumber.powerZero]
  have bound := digitwise_le digits
  have room := wholeLimit_le
  rw [point, power]
  exact ⟨HexNumber.read_pointZero run rfl (by omega), HexNumber.read_powerZero run rfl (by omega)⟩

/-- Spelled with a fraction or a power of zero, an integer literal in base ten keeps its value, and
    one in base sixteen keeps it unless the rounding of its digits loses a tie. -/
theorem value_spellings (accepted : read text = .ok (.whole n)) :
    ((Base.split text.toList).1 = .decimal → ∃ x : Double,
      read (text ++ ".0") = .ok (.real x) ∧ read (text ++ "e0") = .ok (.real x) ∧
        (real x).value = (whole n).value) ∧
    ((Base.split text.toList).1 = .hexadecimal → ∃ x : Double,
      read (text ++ ".0") = .ok (.real x) ∧ read (text ++ "p0") = .ok (.real x) ∧
        ((real x).value = (whole n).value ↔ ¬ Width.double.LosesTie 16 n)) := by
  obtain ⟨below, base, integer⟩ := exists_integerText_of_read accepted
  obtain ⟨digits, announced, run, noZero, rfl⟩ := integer.exists_digits
  rw [announced]
  constructor
  · rintro rfl
    obtain ⟨point, power⟩ := read_decimal_spellings announced run (noZero rfl) below
    exact ⟨_, point, power, rfl⟩
  · rintro rfl
    obtain ⟨point, power⟩ := read_hexadecimal_spellings announced run below
    exact ⟨_, point, power, ofNat_digitwise_eq_iff below⟩

/-- The first integer above two to the power of fifty-three is read alike in both bases. -/
theorem value_spellings_odd :
    (read "9007199254740993" = .ok (.whole (2 ^ 53 + 1)) ∧ ∃ x : Double,
      read "9007199254740993.0" = .ok (.real x) ∧ read "9007199254740993e0" = .ok (.real x) ∧
        (real x).value = (whole (2 ^ 53 + 1)).value) ∧
    (read "0x20000000000001" = .ok (.whole (2 ^ 53 + 1)) ∧ ∃ x : Double,
      read "0x20000000000001.0" = .ok (.real x) ∧ read "0x20000000000001p0" = .ok (.real x) ∧
        ((real x).value = (whole (2 ^ 53 + 1)).value ↔
          ¬ Width.double.LosesTie 16 (2 ^ 53 + 1))) := by
  have decimal : read "9007199254740993" = .ok (.whole (2 ^ 53 + 1)) := by decide +kernel
  have hexadecimal : read "0x20000000000001" = .ok (.whole (2 ^ 53 + 1)) := by decide +kernel
  exact ⟨⟨decimal, (value_spellings decimal).1 (by decide +kernel)⟩, hexadecimal,
    (value_spellings hexadecimal).2 (by decide +kernel)⟩

/-- The first fifteen digits are half way and go down to `2 ^ 56`; the last one, which is not zero,
    is lost. -/
theorem value_spellings_differ :
    read "0x1000000000000081" = .ok (.whole (2 ^ 60 + 129)) ∧
      read "0x1000000000000081.0" = .ok (.real (ofNat (2 ^ 60))) ∧
      read "0x1000000000000081p0" = .ok (.real (ofNat (2 ^ 60))) ∧
      (real (ofNat (2 ^ 60))).value ≠ (whole (2 ^ 60 + 129)).value := by
  have accepted : read "0x1000000000000081" = .ok (.whole (2 ^ 60 + 129)) := by decide +kernel
  have split : Base.split "0x1000000000000081".toList =
      (.hexadecimal, "1000000000000081".toList) := by decide
  obtain ⟨below, base, integer⟩ := exists_integerText_of_read accepted
  obtain ⟨digits, announced, run, -, same⟩ := integer.exists_digits
  rw [split, Prod.mk.injEq] at announced
  obtain ⟨rfl, rfl⟩ := announced
  have rounded : Width.double.digitwise 16 (digitValues 16 "1000000000000081".toList) = 2 ^ 60 := by
    decide +kernel
  obtain ⟨point, power⟩ := read_hexadecimal_spellings split run (same ▸ below)
  rw [rounded] at point power
  exact ⟨accepted, point, power, by decide +kernel⟩

end Literal

end Metrology
