/-
Module: Metrology.Proofs.ValueText
Layer: Proofs
Purpose: The text of a binary value reads back as the value. A decimal in positional form is digits
  with at most one point among them; leading zeros change nothing, and zeros behind a whole number
  are its power of ten, so the reader makes of it a decimal that denotes the same number. Hence
  different values have different texts.
Imports: Metrology.Decimal.Layout, Metrology.Proofs.DecimalText, Metrology.Proofs.DimensionText,
  Metrology.Proofs.ShortestDecimal
Main exports: Layout.positionalText_whole, Layout.positionalText_fraction,
  Layout.positionalText_chars, Decimal.read?_positionalText, Binary.read?_text, Binary.text_inj,
  Binary.mem_text
-/
import Metrology.Decimal.Layout
import Metrology.Proofs.DecimalText
import Metrology.Proofs.DimensionText
import Metrology.Proofs.ShortestDecimal

namespace Metrology

theorem isDigit_of_mem_zeros {k : Nat} {c : Char} (h : c ∈ List.replicate k '0') :
    c.isDigit = true := by
  rw [List.eq_of_mem_replicate h]
  rfl

/-! ### Positional form -/

namespace Layout

variable {d : Decimal}

theorem positionalText_whole (whole : 0 ≤ d.exponent) :
    positionalText false d =
      decimalDigits d.significand ++ List.replicate d.exponent.toNat '0' := by
  simp [positionalText, whole]

/-- Without a fraction there is no point. -/
theorem isDigit_of_mem_whole (whole : 0 ≤ d.exponent) :
    ∀ c ∈ positionalText false d, c.isDigit = true := by
  rw [positionalText_whole whole]
  intro c mem
  rcases List.mem_append.1 mem with digit | zero
  · exact isDigit_of_mem_decimalDigits digit
  · exact isDigit_of_mem_zeros zero

/-- With a fraction, the digits of the significand are filled up with zeros for a digit before the
    point. -/
theorem positionalText_fraction (fraction : d.exponent < 0) :
    ∃ front back, positionalText false d = front ++ '.' :: back ∧ front ≠ [] ∧
      back.length = (-d.exponent).toNat ∧ (∀ c ∈ front ++ back, c.isDigit = true) ∧
      numeral 10 (front ++ back) = d.significand := by
  generalize padding : (-d.exponent).toNat + 1 - (decimalDigits d.significand).length = zeros
  generalize filled : List.replicate zeros '0' ++ decimalDigits d.significand = padded
  have enough : (-d.exponent).toNat + 1 ≤ padded.length := by
    rw [← filled, List.length_append, List.length_replicate]
    omega
  refine ⟨padded.take (padded.length - (-d.exponent).toNat),
    padded.drop (padded.length - (-d.exponent).toNat), ?_, ?_, ?_, ?_, ?_⟩
  · simp only [positionalText, if_neg (Int.not_le.2 fraction), padding, filled]
  · rw [Ne, List.take_eq_nil_iff]
    rintro (none | empty)
    · omega
    · rw [empty] at enough
      exact absurd enough (by simp)
  · rw [List.length_drop]
    omega
  · rw [List.take_append_drop, ← filled]
    intro c mem
    rcases List.mem_append.1 mem with zero | digit
    · exact isDigit_of_mem_zeros zero
    · exact isDigit_of_mem_decimalDigits digit
  · rw [List.take_append_drop, ← filled, numeral_zeros_append]
    exact positional_decimalDigits _

/-- A positional form begins with a digit, and has digits and points only. -/
theorem positionalText_chars (d : Decimal) :
    (∃ c cs, positionalText false d = c :: cs ∧ c.isDigit = true) ∧
      ∀ c ∈ positionalText false d, c.isDigit = true ∨ c = '.' := by
  rcases Int.lt_or_le d.exponent 0 with fraction | whole
  · obtain ⟨front, back, text, nonempty, -, digits, -⟩ := positionalText_fraction fraction
    obtain ⟨c, cs, rfl⟩ := List.exists_cons_of_ne_nil nonempty
    refine ⟨⟨c, cs ++ '.' :: back, text, digits c (by simp)⟩, fun x mem => ?_⟩
    rw [text] at mem
    rcases List.mem_append.1 mem with inFront | behind
    · exact .inl (digits x (List.mem_append_left _ inFront))
    · rcases List.mem_cons.1 behind with point | inBack
      · exact .inr point
      · exact .inl (digits x (List.mem_append_right _ inBack))
  · have digits := isDigit_of_mem_whole whole
    have nonempty : positionalText false d ≠ [] := by
      rw [positionalText_whole whole]
      exact List.append_ne_nil_of_left_ne_nil Nat.toDigits_ne_nil _
    obtain ⟨c, cs, text⟩ := List.exists_cons_of_ne_nil nonempty
    exact ⟨⟨c, cs, text, digits c (by simp [text])⟩, fun x mem => .inl (digits x mem)⟩

end Layout

/-! ### Reading -/

namespace Decimal

/-- A positional form is read as a decimal that denotes the same number. -/
theorem read?_positionalText (d : Decimal) :
    ∃ e, read? (Layout.positionalText false d) = some e ∧ e.num * d.den = d.num * e.den := by
  rcases Int.lt_or_le d.exponent 0 with fraction | whole
  · obtain ⟨front, back, text, nonempty, places, digits, value⟩ :=
      Layout.positionalText_fraction fraction
    refine ⟨d, ?_, rfl⟩
    have exponent : -((-d.exponent).toNat : Int) = d.exponent := by omega
    have isDigit : ∀ c ∈ front ++ back, isDigitOf 10 c = true := by
      intro c mem
      exact isDigitOf_of_isDigit (digits c mem)
    rw [List.forall_mem_append] at isDigit
    rw [text, read?_point nonempty isDigit.1 isDigit.2, value, places, exponent]
  · obtain ⟨⟨c, cs, text, -⟩, -⟩ := Layout.positionalText_chars d
    have digits : ∀ c ∈ Layout.positionalText false d, isDigitOf 10 c = true := by
      intro c mem
      exact isDigitOf_of_isDigit (Layout.isDigit_of_mem_whole whole c mem)
    refine ⟨_, read?_digits (by simp [text]) digits, ?_⟩
    have noPlaces : (-d.exponent).toNat = 0 := by omega
    have value : numeral 10 (decimalDigits d.significand) = d.significand :=
      positional_decimalDigits _
    rw [Layout.positionalText_whole whole, numeral_append_zeros, value]
    simp [num, den, noPlaces]

end Decimal

namespace Binary

variable {w : Width}

/-- No word has a digit or a point in it. -/
theorem readMagnitude?_of_chars {negative : Bool} {c : Char} {cs : List Char}
    (digit : c.isDigit = true) :
    readMagnitude? w negative (c :: cs) =
      (Decimal.read? (c :: cs)).map (Decimal.toBinary w negative) := by
  have letters : (['0', '1', '2', '3', '4', '5', '6', '7', '8', '9'].all fun d =>
      d.toLower != 'i' && d.toLower != 'n') = true := by decide
  have noLetter := List.all_eq_true.1 letters c (mem_of_isDigit digit)
  simp only [Bool.and_eq_true, bne_iff_ne] at noLetter
  obtain ⟨notI, notN⟩ := noLetter
  have inf : "inf".toList = ['i', 'n', 'f'] := rfl
  have infinity : "infinity".toList = ['i', 'n', 'f', 'i', 'n', 'i', 't', 'y'] := rfl
  have nan : "nan".toList = ['n', 'a', 'n'] := rfl
  simp [readMagnitude?, inf, infinity, nan, notI, notN]

/-- A positional form is read as the value nearest to the decimal. -/
theorem readMagnitude?_positionalText (negative : Bool) (d : Decimal) :
    readMagnitude? w negative (Layout.positionalText false d) = some (d.toBinary w negative) := by
  obtain ⟨⟨c, cs, text, digit⟩, -⟩ := Layout.positionalText_chars d
  obtain ⟨e, read, same⟩ := Decimal.read?_positionalText d
  rw [text] at read ⊢
  rw [readMagnitude?_of_chars digit, read, Option.map_some, Decimal.toBinary_congr same]

/-- A finite value is written in positional form behind its sign. -/
theorem text_finite {negative : Bool} {n : Nat} {holds : w.Holds n} :
    (finite negative n holds).text = String.ofList (Layout.signText negative ++
      Layout.positionalText false ((finite negative n holds).shortest .up)) := by
  simp [text, Layout.write, Layout.decimalText, Layout.plain]

/-- The text of a value reads back as the value. -/
theorem read?_text (x : Binary w) : read? w x.text = some x := by
  cases x with
  | nan => cases w <;> decide +kernel
  | infinite negative => cases w <;> cases negative <;> decide +kernel
  | finite negative n holds =>
      have magnitude := readMagnitude?_positionalText (w := w) negative
        ((finite negative n holds).shortest .up)
      obtain ⟨⟨c, cs, positional, digit⟩, -⟩ :=
        Layout.positionalText_chars ((finite negative n holds).shortest .up)
      rw [toBinary_shortest, positional] at magnitude
      rw [read?, text_finite, positional, String.toList_ofList]
      cases negative with
      | true => exact magnitude
      | false =>
          have noPlus : c ≠ '+' := ne_of_isDigit digit rfl
          have noMinus : c ≠ '-' := ne_of_isDigit digit rfl
          simpa [Layout.signText, noPlus, noMinus] using magnitude

/-- Different values have different texts. -/
theorem text_inj {x y : Binary w} (h : x.text = y.text) : x = y := by
  have read := read?_text x
  rw [h, read?_text y] at read
  exact (Option.some.inj read).symm

/-- The text of a positive finite value has digits and points only. -/
theorem mem_text {x : Binary w} (positive : x.isPositiveFinite = true) {c : Char}
    (mem : c ∈ x.text.toList) : c.isDigit = true ∨ c = '.' := by
  cases x with
  | nan => cases positive
  | infinite negative => cases positive
  | finite negative n holds =>
      obtain rfl : negative = false := by
        simp only [isPositiveFinite, Bool.and_eq_true, Bool.not_eq_true'] at positive
        exact positive.1
      rw [text_finite, String.toList_ofList] at mem
      exact (Layout.positionalText_chars ((finite false n holds).shortest .up)).2 c mem

end Binary

end Metrology
