/-
Module: Metrology.Proofs.HexadecimalLiteral
Layer: Proofs
Purpose: Hexadecimal literals with a fraction or a power of two. A literal is taken apart into its
  parts, which denote an exact rational; the reader finds the same parts, and multiplies the digits
  by the power in double precision. Where the rational is a double, the digits and the product are
  exact; but the power is a double of its own, which overflows and vanishes although the product
  would be a double. So the value is the exact one just where digits and power are doubles too.
Imports: Metrology.Proofs.DigitwiseRounding, Metrology.Proofs.Lexing, Metrology.Proofs.LiteralValue
Main exports: PowerOfTwo, HexNumber, HexNumber.value, HexNumber.exists_chars, HexNumber.sound,
  HexNumber.read_text, HexNumber.ofHexText_plainChars, Literal.hexMantissa_eq_ofNat,
  Literal.hexMantissa_eq, HexNumber.read_text_of_denotes, HexNumber.read_text_iff
-/
import Metrology.Proofs.DigitwiseRounding
import Metrology.Proofs.Lexing
import Metrology.Proofs.LiteralValue

namespace Metrology

/-! ### Taken apart -/

/-- The exponent that the power of a hexadecimal literal denotes; without one it is zero. -/
inductive PowerOfTwo : List Char → Int → Prop where
  | absent : PowerOfTwo [] 0
  | unsigned {mark : Char} {digits : List Char}
      (marks : Base.hexadecimal.isExponentMark mark = true) (run : Digits 10 digits) :
      PowerOfTwo (mark :: digits) (numeral 10 digits)
  | plus {mark : Char} {digits : List Char}
      (marks : Base.hexadecimal.isExponentMark mark = true) (run : Digits 10 digits) :
      PowerOfTwo (mark :: '+' :: digits) (numeral 10 digits)
  | minus {mark : Char} {digits : List Char}
      (marks : Base.hexadecimal.isExponentMark mark = true) (run : Digits 10 digits) :
      PowerOfTwo (mark :: '-' :: digits) (-numeral 10 digits)

/-- A hexadecimal literal that is no integer literal: with a fraction, a power of two, or both. -/
structure HexNumber where
  whole : List Char
  fraction : List Char
  powerText : List Char
  exponent : Int
  digits : Digits 16 whole
  isFraction : FractionPart .hexadecimal fraction
  isPower : PowerOfTwo powerText exponent
  real : fraction ≠ [] ∨ powerText ≠ []

namespace HexNumber

/-- The characters after `0x`. -/
def chars (t : HexNumber) : List Char := t.whole ++ (t.fraction ++ t.powerText)

def text (t : HexNumber) : String := String.ofList ('0' :: 'x' :: t.chars)

/-- The number that all digits before the power denote together. -/
def mantissa (t : HexNumber) : Nat := numeral 16 (t.whole ++ t.fraction)

/-- The exponent of two that the mantissa is scaled by: a digit of the fraction takes four off. -/
def power (t : HexNumber) : Int := t.exponent - 4 * (digitValues 16 t.fraction).length

/-- The exact value. -/
def value (t : HexNumber) : ℚ := t.mantissa * (2 : ℚ) ^ t.power

end HexNumber

theorem ExponentPart.powerOfTwo {cs : List Char} (h : ExponentPart .hexadecimal cs) :
    ∃ exponent, PowerOfTwo cs exponent := by
  cases h with
  | unsigned marks run => exact ⟨_, .unsigned marks run⟩
  | signed marks signs run =>
      rcases signs with rfl | rfl
      · exact ⟨_, .plus marks run⟩
      · exact ⟨_, .minus marks run⟩

/-- Every hexadecimal literal of the grammar is one of these or an integer literal. -/
theorem HexNumber.exists_chars {whole ending : List Char} (digits : Digits 16 whole)
    (after : Ending .hexadecimal ending) (some_ : ending ≠ []) :
    ∃ t : HexNumber, t.chars = whole ++ ending := by
  cases after with
  | plain isFraction =>
      refine ⟨⟨whole, _, [], 0, digits, isFraction, .absent, .inl some_⟩, ?_⟩
      rw [chars, List.append_nil]
  | powered isFraction power =>
      obtain ⟨exponent, isPower⟩ := power.powerOfTwo
      obtain ⟨mark, rest, rfl, -⟩ := power.head
      exact ⟨⟨whole, _, _, exponent, digits, isFraction, isPower, .inr (List.cons_ne_nil _ _)⟩, rfl⟩

/-! ### Powers without separators -/

/-- Digits without separators are read as the number that they denote. -/
theorem Digits.readNat? {cs : List Char} (h : Digits 10 cs) :
    readNat? (Metrology.plainChars cs) = some (numeral 10 cs) := by
  obtain ⟨c, rest, rfl, digit⟩ := h.head
  have first : c ≠ '_' := ne_of_isDigitOf digit rfl
  have nonempty : (Metrology.plainChars (c :: rest)).isEmpty = false := by
    rw [plainChars_cons first]
    rfl
  have all : (Metrology.plainChars (c :: rest)).all (isDigitOf 10) = true :=
    List.all_eq_true.2 h.plainChars
  simp only [Metrology.readNat?, nonempty, all, Bool.not_false, Bool.and_self, if_true,
    digitValues_plainChars, numeral]

/-- Digits are no sign. -/
theorem Digits.readInt? {cs : List Char} (h : Digits 10 cs) :
    readInt? (Metrology.plainChars cs) = some (numeral 10 cs : Int) := by
  have value := h.readNat?
  obtain ⟨c, rest, rfl, digit⟩ := h.head
  obtain ⟨noUnderscore, -, -, noPlus, noMinus⟩ :=
    @Scan.plain_of_isDigitOf .hexadecimal _ .exponent digit
  rw [plainChars_cons noUnderscore] at value ⊢
  unfold Metrology.readInt?
  split
  · next same => exact absurd (List.cons.inj same).1 noPlus
  · next same => exact absurd (List.cons.inj same).1 noMinus
  · rw [value]
    rfl

/-- Mark and sign stay in front of the digits, and what follows the mark is read as the exponent. -/
theorem PowerOfTwo.plainChars_eq {cs : List Char} {exponent : Int} (h : PowerOfTwo cs exponent) :
    (plainChars cs = [] ∧ exponent = 0) ∨
      ∃ mark rest, plainChars cs = mark :: rest ∧
        Base.hexadecimal.isExponentMark mark = true ∧ readInt? rest = some exponent := by
  cases h with
  | absent => exact .inl ⟨rfl, rfl⟩
  | unsigned marks run =>
      have noUnderscore := (Scan.ne_of_isExponentMark marks).1
      exact .inr ⟨_, _, plainChars_cons noUnderscore _, marks, run.readInt?⟩
  | plus marks run | minus marks run =>
      have noUnderscore := (Scan.ne_of_isExponentMark marks).1
      refine .inr ⟨_, _, plainChars_cons noUnderscore _, marks, ?_⟩
      rw [plainChars_cons (by decide), readInt?, run.readNat?]
      rfl

theorem PowerOfTwo.readExponent {cs : List Char} {exponent : Int} (h : PowerOfTwo cs exponent) :
    (if ((plainChars cs).drop 1).isEmpty then some 0 else readInt? ((plainChars cs).drop 1)) =
      some exponent := by
  rcases h.plainChars_eq with ⟨none, rfl⟩ | ⟨mark, rest, same, -, value⟩
  · rw [none]
    rfl
  · rw [same, List.drop_succ_cons, List.drop_zero]
    cases rest with
    | nil => cases value
    | cons c rest => exact value

/-! ### The reader -/

theorem Digits.inner_plainChars {cs : List Char} (h : Digits 16 cs) :
    ∀ c ∈ Metrology.plainChars cs, Base.hexadecimal.Inner c :=
  fun c mem => @Digits.inner .hexadecimal _ h c (List.mem_filter.1 mem).1

theorem FractionPart.plainChars_eq {cs : List Char} (h : FractionPart .hexadecimal cs) :
    plainChars cs = [] ∨ plainChars cs = '.' :: plainChars (cs.drop 1) := by
  cases h with
  | absent => exact .inl rfl
  | present _ _ => exact .inr (plainChars_cons (by decide) _)

theorem FractionPart.unmarked {cs : List Char} (h : FractionPart .hexadecimal cs) :
    ∀ c ∈ plainChars cs, Base.hexadecimal.isExponentMark c = false := by
  cases h with
  | absent => exact nofun
  | present _ run =>
      rw [plainChars_cons (by decide)]
      exact List.forall_mem_cons.2 ⟨rfl, fun c mem => (run.inner_plainChars c mem).2⟩

theorem FractionPart.digitValues_drop {cs : List Char} (h : FractionPart .hexadecimal cs) :
    digitValues 16 ((plainChars cs).drop 1) = digitValues 16 cs := by
  rw [← digitValues_plainChars 16 cs]
  rcases h.plainChars_eq with none | some_
  · rw [none]
    rfl
  · rw [some_, digitValues_cons_period]
    rfl

theorem PowerOfTwo.exponentPart {cs : List Char} {exponent : Int} (h : PowerOfTwo cs exponent) :
    cs = [] ∨ ExponentPart .hexadecimal cs := by
  cases h with
  | absent => exact .inl rfl
  | unsigned marks run => exact .inr (.unsigned marks run)
  | plus marks run => exact .inr (.signed marks (.inl rfl) run)
  | minus marks run => exact .inr (.signed marks (.inr rfl) run)

namespace HexNumber

variable (t : HexNumber)

theorem isEnding : Ending .hexadecimal (t.fraction ++ t.powerText) := by
  rcases t.isPower.exponentPart with none | power
  · rw [none, List.append_nil]
    exact .plain t.isFraction
  · exact .powered t.isFraction power

/-- A fraction or a power is marked off. -/
theorem exists_separator : ∃ c ∈ t.chars, ¬ Base.hexadecimal.Inner c := by
  have some_ : t.fraction ++ t.powerText ≠ [] := by simpa [imp_iff_not_or] using t.real
  obtain ⟨c, mem, separates⟩ := t.isEnding.separates some_
  exact ⟨c, List.mem_append_right _ mem, separates⟩

/-- The text has no defect. -/
theorem sound : Literal.Sound t.text .hexadecimal t.chars where
  announced := by
    rw [text, String.toList_ofList]
    rfl
  nonempty := by
    obtain ⟨c, mem, -⟩ := t.exists_separator
    exact List.ne_nil_of_mem mem
  noZero := nofun
  complete := .inr (.inl ⟨t.whole, _, rfl, t.digits, t.isEnding⟩)

/-- The literal is no integer. -/
theorem read_text : Literal.read t.text = Literal.ofHexText (plainChars t.chars) :=
  t.sound.read_real t.exists_separator

theorem ofHexText_plainChars :
    Literal.ofHexText (plainChars t.chars) =
      if Literal.exponentInRange t.power then
        Literal.ofDouble
          (Literal.hexMantissa (t.whole ++ t.fraction) * (Binary.ofNat 2).power t.power)
      else .error .overflow := by
  have parts : plainChars t.chars =
      (plainChars t.whole ++ plainChars t.fraction) ++ plainChars t.powerText := by
    rw [chars, plainChars_append, plainChars_append, List.append_assoc]
  have unmarked : ∀ c ∈ plainChars t.whole ++ plainChars t.fraction,
      (!Base.hexadecimal.isExponentMark c) = true := by
    intro c mem
    rw [Bool.not_eq_true']
    rcases List.mem_append.1 mem with inWhole | inFraction
    · exact (t.digits.inner_plainChars c inWhole).2
    · exact t.isFraction.unmarked c inFraction
  have marked : ∀ c ∈ (plainChars t.powerText).head?,
      (!Base.hexadecimal.isExponentMark c) = false := by
    rcases t.isPower.plainChars_eq with ⟨none, -⟩ | ⟨mark, rest, same, marks, -⟩
    · rw [none]
      exact nofun
    · rw [same]
      simpa using marks
  have noPeriod : ∀ c ∈ plainChars t.whole, (c != '.') = true := by
    intro c mem
    simpa using (t.digits.inner_plainChars c mem).1
  have period : ∀ c ∈ (plainChars t.fraction).head?, (c != '.') = false := by
    rcases t.isFraction.plainChars_eq with none | some_
    · rw [none]
      exact nofun
    · rw [some_]
      simp
  have digits : digitValues 16 (plainChars t.whole ++ (plainChars t.fraction).drop 1) =
      digitValues 16 (t.whole ++ t.fraction) := by
    rw [digitValues_append, digitValues_append, digitValues_plainChars,
      t.isFraction.digitValues_drop]
  simp only [Literal.ofHexText, parts, takeWhile_append_eq unmarked marked,
    dropWhile_append_eq unmarked marked, takeWhile_append_eq noPeriod period,
    dropWhile_append_eq noPeriod period, Literal.hexMantissa, digits,
    t.isFraction.digitValues_drop, t.isPower.readExponent, power]
  rfl

end HexNumber

/-! ### The digits -/

namespace Literal

open Binary

/-- Hexadecimal digits are rounded one after the other. -/
theorem hexMantissa_eq_ofNat (cs : List Char) :
    hexMantissa cs = ofNat (Width.double.digitwise 16 (digitValues 16 cs)) := by
  have radix : 2 ^ 4 = 16 := rfl
  have rounded := @foldl_digits_eq_ofNat .double 4 (digitValues 16 cs) (by decide)
  rw [radix] at rounded
  exact rounded fun d mem => digitValues_lt mem

/-- Digits that denote a short number are taken in exactly. -/
theorem hexMantissa_eq {cs : List Char} (short : Width.double.Short (numeral 16 cs)) :
    hexMantissa cs = ofNat (numeral 16 cs) := by
  have exact := @Width.digitwise_of_short .double 4 (digitValues 16 cs)
    (fun d mem => digitValues_lt mem) short
  rw [hexMantissa_eq_ofNat]
  exact congrArg ofNat exact

end Literal

/-! ### The value -/

namespace HexNumber

open Binary

variable (t : HexNumber) {x : Double}

/-- A literal whose value is a double: the reader gives that double, zero or an overflow. -/
theorem read_text_of_denotes (exact : x.Denotes t.value) :
    Literal.read t.text =
      if Literal.exponentInRange t.power ∧ t.mantissa < 2 ^ Width.double.topExponent ∧
          t.power < Width.double.topExponent then
        .ok (.real (if -(Width.double.topExponent : Int) < t.power then x else zero false))
      else .error .overflow := by
  have short : Width.double.Short t.mantissa := short_of_denotes exact
  have digits : Literal.hexMantissa (t.whole ++ t.fraction) = ofNat t.mantissa :=
    Literal.hexMantissa_eq short
  rw [read_text, ofHexText_plainChars, digits]
  cases inRange : Literal.exponentInRange t.power with
  | false => simp
  | true =>
      simp only [if_true, true_and]
      split
      · next finite =>
          split
          · next high =>
              have range : t.power.natAbs < Width.double.topExponent := by omega
              rw [ofNat_mul_power_two_eq exact finite.1 range, Literal.ofDouble,
                if_pos exact.isFinite]
          · next low =>
              rw [ofNat_mul_power_two_eq_zero short finite.1 (Int.not_lt.1 low)]
              rfl
      · next outside =>
          have infinite : (ofNat t.mantissa * (ofNat 2).power t.power : Double).isFinite = false :=
            Bool.eq_false_iff.2 fun finite =>
              outside (of_isFinite_ofNat_mul_power_two finite)
          rw [Literal.ofDouble, infinite]
          rfl

/-- A literal whose value is a double is read as this double exactly if the number of its digits is
    a double too, and so are the power of two and its reciprocal; where the value is zero, the power
    needs no reciprocal but an exponent in range. -/
theorem read_text_iff (exact : x.Denotes t.value) :
    Literal.read t.text = .ok (.real x) ↔
      (t.mantissa = 0 ∧ -2 ^ 31 ≤ t.power ∧ t.power < Width.double.topExponent) ∨
        (t.mantissa ≠ 0 ∧ t.mantissa < 2 ^ Width.double.topExponent ∧
          -(Width.double.topExponent : Int) < t.power) := by
  have inRange : Literal.exponentInRange t.power = true ↔ -2 ^ 31 ≤ t.power ∧ t.power < 2 ^ 31 :=
    decide_eq_true_iff
  have top : Width.double.topExponent = 1024 := rfl
  constructor
  · intro done
    rw [t.read_text_of_denotes exact] at done
    split at done
    · next finite =>
        have same := Literal.real.inj (Except.ok.inj done)
        by_cases none : t.mantissa = 0
        · exact .inl ⟨none, (inRange.1 finite.1).1, finite.2.2⟩
        · refine .inr ⟨none, finite.2.1, ?_⟩
          by_contra low
          rw [if_neg low] at same
          exact none ((eq_zero_iff_of_denotes exact).1 same.symm)
    · cases done
  · rintro (⟨none, low, high⟩ | ⟨some_, below, low⟩)
    · have below : t.mantissa < 2 ^ Width.double.topExponent := none ▸ Nat.two_pow_pos _
      have range : Literal.exponentInRange t.power = true := inRange.2 ⟨low, by omega⟩
      rw [t.read_text_of_denotes exact, if_pos ⟨range, below, high⟩,
        (eq_zero_iff_of_denotes exact).2 none, ite_self]
    · have high := power_lt_of_denotes exact some_
      have range : Literal.exponentInRange t.power = true := inRange.2 ⟨by omega, by omega⟩
      rw [t.read_text_of_denotes exact, if_pos ⟨range, below, high⟩, if_pos low]

/-- The literal `0x1.8p3`. -/
def twelve : HexNumber where
  whole := ['1']
  fraction := ['.', '8']
  powerText := ['p', '3']
  exponent := numeral 10 ['3']
  digits := .single rfl
  isFraction := .present rfl (.single rfl)
  isPower := .unsigned rfl (.single rfl)
  real := .inl (by decide)

theorem read_text_iff_twelve :
    twelve.text = "0x1.8p3" ∧ (ofNat 12 : Double).Denotes twelve.value ∧
      Literal.read twelve.text = .ok (.real (ofNat 12)) := by
  have exact : (ofNat 12 : Double).Denotes (twelve.mantissa * 2 ^ twelve.power) :=
    denotes_ofNat (by decide +kernel) (by decide)
  refine ⟨rfl, exact, (twelve.read_text_iff exact).2 (.inr ⟨?_, ?_, ?_⟩)⟩ <;> decide +kernel

/-- The literal `0x1p-1074`. -/
def least : HexNumber where
  whole := ['1']
  fraction := []
  powerText := ['p', '-', '1', '0', '7', '4']
  exponent := -numeral 10 ['1', '0', '7', '4']
  digits := .single rfl
  isFraction := .absent
  isPower := .minus rfl (.adjoined rfl (.adjoined rfl (.adjoined rfl (.single rfl))))
  real := .inr (by decide)

/-- The least double above zero is lost in the reciprocal of a power that is no double. -/
theorem read_least :
    least.text = "0x1p-1074" ∧
      (finite false 1 (Width.holds_of_lt (by decide)) : Double).Denotes least.value ∧
      Literal.read least.text = .ok (.real (zero false)) := by
  refine ⟨rfl, denotes_scaled_iff.2 ⟨_, _, rfl, ?_⟩, ?_⟩
  · decide +kernel
  · decide +kernel

/-- A power that is no double spoils zero as well. -/
example : Literal.read "0x0p1024" = .error .overflow := by decide +kernel

end HexNumber

end Metrology
