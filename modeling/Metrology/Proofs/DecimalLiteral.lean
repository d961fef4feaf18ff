/-
Module: Metrology.Proofs.DecimalLiteral
Layer: Proofs
Purpose: Natural numbers written in decimal and read back as literals. The pass for defects goes
  over a run of digits without one, the digits of a number do not begin with a superfluous zero, and
  their positional value is the number; so below the limit of whole literals the reader inverts the
  writer.
Imports: Metrology.Formula.Literal
Main exports: isDigit_of_mem_decimalDigits, exists_cons_decimalDigits, positional_decimalDigits,
  Scan.run_digits, Literal.read_decimalDigits
-/
import Metrology.Formula.Literal

namespace Metrology

/-! ### Digits and their value -/

theorem digitValue?_of_isDigit {c : Char} (h : c.isDigit = true) :
    digitValue? 10 c = some (c.toNat - '0'.toNat) := by
  have range : '0' ≤ c ∧ c ≤ '9' := by
    simpa [Char.isDigit, Char.le_def] using h
  have upper : c.toNat ≤ '9'.toNat := range.2
  have below : c.toNat - '0'.toNat < 10 := by
    have bound : '9'.toNat - '0'.toNat < 10 := by decide
    omega
  simp only [digitValue?, range, and_self, if_true, below]

/-- A digit is none of the other characters. -/
theorem ne_of_isDigit {c other : Char} (h : c.isDigit = true) (noDigit : other.isDigit = false) :
    c ≠ other := by
  rintro rfl
  rw [h] at noDigit
  cases noDigit

theorem isDigitOf_of_isDigit {c : Char} (h : c.isDigit = true) : isDigitOf 10 c = true := by
  rw [isDigitOf, digitValue?_of_isDigit h]
  rfl

theorem isDigit_of_mem_decimalDigits {n : Nat} {c : Char} (mem : c ∈ decimalDigits n) :
    c.isDigit = true :=
  Nat.isDigit_of_mem_toDigits (by decide) (by decide) mem

theorem exists_cons_decimalDigits (n : Nat) :
    ∃ c cs, decimalDigits n = c :: cs ∧ c.isDigit = true := by
  obtain ⟨c, cs, shape⟩ : ∃ c cs, decimalDigits n = c :: cs :=
    List.exists_cons_of_ne_nil Nat.toDigits_ne_nil
  have first : c ∈ decimalDigits n := by
    rw [shape]
    exact List.mem_cons_self ..
  exact ⟨c, cs, shape, isDigit_of_mem_decimalDigits first⟩

/-- The digits of a text taken in one at a time. -/
theorem foldl_digitValues {cs : List Char} (all : ∀ c ∈ cs, c.isDigit = true) (value : Nat) :
    (digitValues 10 cs).foldl (fun value digit => value * 10 + digit) value =
      Nat.ofDigitChars 10 cs value := by
  induction cs generalizing value with
  | nil => simp [digitValues]
  | cons c cs ih =>
      obtain ⟨digit, others⟩ := List.forall_mem_cons.1 all
      have head : digitValues 10 (c :: cs) = (c.toNat - '0'.toNat) :: digitValues 10 cs := by
        simp only [digitValues, List.filterMap_cons, digitValue?_of_isDigit digit]
      rw [head, List.foldl_cons, ih others, Nat.ofDigitChars_cons, Nat.mul_comm]

theorem positional_decimalDigits (n : Nat) :
    positional 10 (digitValues 10 (decimalDigits n)) = n := by
  rw [positional, foldl_digitValues fun c mem => isDigit_of_mem_decimalDigits mem]
  exact Nat.ofDigitChars_ten_toDigits

/-- The digits of a positive number do not begin with a zero. -/
theorem head?_decimalDigits {n : Nat} (pos : 0 < n) : (decimalDigits n).head? ≠ some '0' := by
  induction n using Nat.strongRecOn with
  | ind n ih =>
      rw [decimalDigits, Nat.toDigits_eq_if (by decide)]
      split
      · next small =>
          have digit : n.digitChar ≠ '0' := by
            intro zero
            have same := Nat.toNat_digitChar_sub_48_of_lt_ten small
            rw [zero] at same
            exact absurd same (Nat.ne_of_lt pos)
          simpa using digit
      · next large =>
          have shorter := ih (n / 10) (by omega) (by omega)
          rwa [List.head?_append, Option.or_of_isSome (by simp [Nat.toDigits_ne_nil])]

/-! ### The pass for defects -/

/-- A digit is fine after everything. -/
theorem Scan.step_digit {c : Char} (h : c.isDigit = true) (s : Scan) (offset : Nat) :
    s.step .decimal offset c = .ok ⟨.digit, offset, s.seenPeriod, s.seenExponent⟩ := by
  have notUnderscore : c ≠ '_' := ne_of_isDigit h rfl
  have notPeriod : c ≠ '.' := ne_of_isDigit h rfl
  have notPlus : c ≠ '+' := ne_of_isDigit h rfl
  have notMinus : c ≠ '-' := ne_of_isDigit h rfl
  have notMark : Base.decimal.isExponentMark c = false := by
    simp only [Base.isExponentMark, Bool.or_eq_false_iff, beq_eq_false_iff_ne]
    exact ⟨ne_of_isDigit h rfl, ne_of_isDigit h rfl⟩
  have digit := isDigitOf_of_isDigit h
  simp [step, read, readDigit, notUnderscore, notPeriod, notPlus, notMinus, notMark, digit,
    Base.radix, Except.map]

/-- A run of digits is fine after everything, and ends in a digit. -/
theorem Scan.run_digits {c : Char} {cs : List Char} (all : ∀ x ∈ c :: cs, x.isDigit = true)
    (s : Scan) (offset : Nat) :
    ∃ last, s.run .decimal offset (c :: cs) = .ok ⟨.digit, last, s.seenPeriod, s.seenExponent⟩ := by
  induction cs generalizing c s offset with
  | nil =>
      refine ⟨offset, ?_⟩
      simp only [run, step_digit (all c (List.mem_singleton_self c))]
  | cons d cs ih =>
      obtain ⟨digit, others⟩ := List.forall_mem_cons.1 all
      obtain ⟨last, rest⟩ :=
        ih others ⟨.digit, offset, s.seenPeriod, s.seenExponent⟩ (offset + c.utf8Size)
      refine ⟨last, ?_⟩
      rw [run]
      simp only [step_digit digit]
      exact rest

/-! ### Literals -/

namespace Literal

/-- Digits announce no base. -/
theorem split_digits {cs : List Char} (all : ∀ c ∈ cs, c.isDigit = true) :
    Base.split cs = (.decimal, cs) := by
  unfold Base.split
  split
  · exact absurd rfl (ne_of_isDigit (all 'x' (by simp)) rfl)
  · exact absurd rfl (ne_of_isDigit (all 'o' (by simp)) rfl)
  · exact absurd rfl (ne_of_isDigit (all 'b' (by simp)) rfl)
  · rfl

theorem hasLeadingZero_decimalDigits (n : Nat) : hasLeadingZero (decimalDigits n) = false := by
  rcases Nat.eq_zero_or_pos n with rfl | pos
  · rfl
  · have head := head?_decimalDigits pos
    unfold hasLeadingZero
    split
    · next digits => rw [digits] at head; exact absurd rfl head
    · rfl

/-- A number below the limit is read back from its decimal digits. -/
theorem read_decimalDigits {n : Nat} (h : n < wholeLimit) :
    read (String.ofList (decimalDigits n)) = .ok (.whole n) := by
  have all : ∀ c ∈ decimalDigits n, c.isDigit = true := by
    intro c mem
    exact isDigit_of_mem_decimalDigits mem
  obtain ⟨c, cs, digits⟩ := List.exists_cons_of_ne_nil (l := decimalDigits n) Nat.toDigits_ne_nil
  obtain ⟨last, scanned⟩ := Scan.run_digits (digits ▸ all) (Scan.initial 0) 0
  rw [← digits] at scanned
  have nonempty : (decimalDigits n).isEmpty = false := by rw [digits]; rfl
  have valued : evaluate .decimal ⟨.digit, last, false, false⟩ (decimalDigits n) =
      .ok (.whole n) := by
    rw [evaluate_whole _ ⟨rfl, rfl⟩, Base.radix, positional_decimalDigits, if_pos h]
  simp only [read, readChars, String.toList_ofList, split_digits all, nonempty,
    hasLeadingZero_decimalDigits, Bool.false_eq_true, if_false, and_false, Base.announcedLength,
    scanned, Scan.endDefect?]
  exact valued

end Literal

end Metrology
