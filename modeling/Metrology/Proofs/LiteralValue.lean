/-
Module: Metrology.Proofs.LiteralValue
Layer: Proofs
Purpose: What the reader makes of a text without defects. Separators of digits have no value, and
  the pass ends in the whole part exactly if it met no separator of parts. So the announced digits
  are evaluated as a whole number if there is none among them, and otherwise as a number with a
  fraction or a power, written without the separators of digits.
Imports: Metrology.Proofs.LiteralRecognition
Main exports: numeral, plainChars, digitValues_plainChars, Base.Inner, Digits.inner,
  NumberPlace.Continues.digits, Scan.part_eq_whole_iff_of_run, Literal.Sound,
  Literal.Taken.sound, Literal.Sound.read_whole, Literal.Sound.read_real
-/
import Metrology.Proofs.LiteralRecognition

namespace Metrology

/-! ### Digits without separators -/

/-- The number that digits denote, whatever stands between them. -/
def numeral (radix : Nat) (cs : List Char) : Nat := positional radix (digitValues radix cs)

theorem Digits.mem {radix : Nat} {cs : List Char} (h : Digits radix cs) :
    ∀ c ∈ cs, c = '_' ∨ isDigitOf radix c = true := by
  induction h with
  | single digit => exact List.forall_mem_singleton.2 (.inr digit)
  | adjoined digit _ ih => exact List.forall_mem_cons.2 ⟨.inr digit, ih⟩
  | separated digit _ ih =>
      exact List.forall_mem_cons.2 ⟨.inr digit, List.forall_mem_cons.2 ⟨.inl rfl, ih⟩⟩

/-- The text without its separators. -/
def plainChars (cs : List Char) : List Char := cs.filter (· != '_')

theorem plainChars_append (front back : List Char) :
    plainChars (front ++ back) = plainChars front ++ plainChars back := List.filter_append ..

theorem plainChars_cons {c : Char} (h : c ≠ '_') (cs : List Char) :
    plainChars (c :: cs) = c :: plainChars cs := List.filter_cons_of_pos (by simpa using h)

theorem Digits.plainChars {radix : Nat} {cs : List Char} (h : Digits radix cs) :
    ∀ c ∈ plainChars cs, isDigitOf radix c = true := by
  intro c mem
  obtain ⟨inside, noUnderscore⟩ := List.mem_filter.1 mem
  exact (h.mem c inside).resolve_left (by simpa using noUnderscore)

theorem digitValues_plainChars (radix : Nat) (cs : List Char) :
    digitValues radix (plainChars cs) = digitValues radix cs := by
  have separator : digitValue? radix '_' = none := by simp [digitValue?]
  rw [digitValues, digitValues, plainChars, List.filterMap_filter]
  congr 1
  funext c
  split
  · rfl
  · next same =>
      obtain rfl : c = '_' := by simpa using same
      exact separator.symm

theorem digitValues_append (radix : Nat) (front back : List Char) :
    digitValues radix (front ++ back) = digitValues radix front ++ digitValues radix back :=
  List.filterMap_append ..

theorem digitValues_cons_period (radix : Nat) (cs : List Char) :
    digitValues radix ('.' :: cs) = digitValues radix cs :=
  List.filterMap_cons_none (by simp [digitValue?])

/-! ### Separators of parts -/

section Parts

variable {base : Base} {c : Char} {cs : List Char} {place after : NumberPlace} {s last : Scan}
  {offset : Nat}

/-- A character is no separator of parts. -/
def Base.Inner (base : Base) (c : Char) : Prop := c ≠ '.' ∧ base.isExponentMark c = false

/-- A separator of digits is none of parts. -/
theorem Base.inner_underscore (base : Base) : base.Inner '_' :=
  ⟨by decide, by cases base <;> rfl⟩

/-- Digits and what may stand between them are no separators of parts. -/
theorem Digits.inner (digits : Digits base.radix cs) : ∀ c ∈ cs, base.Inner c := by
  intro c mem
  rcases digits.mem c mem with rfl | digit
  · exact base.inner_underscore
  · obtain ⟨-, noPeriod, noMark, -, -⟩ := @Scan.plain_of_isDigitOf base _ .whole digit
    exact ⟨noPeriod, noMark⟩

/-- Digits to which a fraction or a power belongs are followed by a separator of parts. -/
theorem Ending.separates (after : Ending base cs) (some_ : cs ≠ []) : ∃ c ∈ cs, ¬ base.Inner c := by
  obtain ⟨c, rest, rfl⟩ := List.exists_cons_of_ne_nil some_
  refine ⟨c, List.mem_cons_self, fun inner => ?_⟩
  rcases after.head with period | mark
  · exact inner.1 period
  · rw [inner.2] at mark
    cases mark

/-- A number without a separator of parts is a run of digits. -/
theorem NumberPlace.Continues.digits (complete : NumberPlace.start.Continues base cs)
    (nonempty : cs ≠ []) (inner : ∀ c ∈ cs, base.Inner c) : Digits base.radix cs := by
  rcases complete with empty | ⟨digits, rest, rfl, run, after⟩ | power
  · exact absurd empty nonempty
  · rcases Decidable.em (rest = []) with rfl | some_
    · rwa [List.append_nil]
    · obtain ⟨c, mem, separates⟩ := Ending.separates after some_
      exact absurd (inner c (List.mem_append_right _ mem)) separates
  · obtain ⟨mark, rest, rfl, marks⟩ := power.head
    have noMark := (inner mark List.mem_cons_self).2
    rw [marks] at noMark
    cases noMark

/-- The whole part goes on until a separator of parts. -/
theorem NumberPlace.Advances.part_eq_whole_iff
    (advances : NumberPlace.Advances base c place after) :
    after.part = .whole ↔ place.part = .whole ∧ base.Inner c := by
  cases advances with
  | digit digit =>
      obtain ⟨-, noPeriod, noMark, -, -⟩ := Scan.plain_of_isDigitOf digit
      exact (and_iff_left ⟨noPeriod, noMark⟩).symm
  | underscore isUnderscore =>
      subst isUnderscore
      exact (and_iff_left base.inner_underscore).symm
  | period _ isPeriod => exact iff_of_false nofun fun ⟨_, inner⟩ => inner.1 isPeriod
  | mark marks _ =>
      refine iff_of_false nofun fun ⟨_, inner⟩ => ?_
      rw [inner.2] at marks
      cases marks
  | sign _ => exact iff_of_false nofun fun ⟨whole, _⟩ => nomatch whole

/-- A pass that began in the whole part ends there exactly if it met no separator of parts. -/
theorem Scan.part_eq_whole_iff_of_run (at_ : s.At place) (done : s.run base offset cs = .ok last) :
    last.part = .whole ↔ s.part = .whole ∧ ∀ c ∈ cs, base.Inner c := by
  induction cs generalizing s offset place with
  | nil =>
      obtain rfl := Except.ok.inj done
      simp
  | cons c cs ih =>
      rw [run] at done
      split at done
      · next next stepped =>
          obtain ⟨read, isRead, rfl⟩ := step_eq_ok_iff.1 stepped
          obtain ⟨after, advances, nextAt⟩ := advances_of_read at_ isRead
          have part := advances.part_eq_whole_iff
          rw [← nextAt.2, ← at_.2] at part
          rw [ih (nextAt.noted offset) done, List.forall_mem_cons, ← and_assoc, ← part]
          rfl
      · cases done

end Parts

/-! ### Texts without defects -/

namespace Literal

/-- The announced digits of a text complete a number, and do not begin with a superfluous zero. -/
structure Sound (text : String) (base : Base) (digits : List Char) : Prop where
  announced : Base.split text.toList = (base, digits)
  nonempty : digits ≠ []
  noZero : base = .decimal → hasLeadingZero digits = false
  complete : NumberPlace.start.Continues base digits

/-- The texts that the reader takes are those without a defect. -/
theorem Taken.sound {text : String} (taken : Taken (read text)) :
    ∃ base digits, Sound text base digits := by
  obtain ⟨nonempty, noZero, complete⟩ := (taken_iff_continues rfl).1 taken
  exact ⟨_, _, rfl, nonempty, noZero, complete⟩

namespace Sound

variable {text : String} {base : Base} {digits : List Char}

/-- The pass ends without a defect, in the whole part if no separator of parts is among the digits,
    and what it leaves is evaluated. -/
theorem exists_evaluate (h : Sound text base digits) :
    ∃ last : Scan, (last.part = .whole ↔ ∀ c ∈ digits, base.Inner c) ∧
      read text = evaluate base last digits := by
  have start := Scan.initial_at base.announcedLength
  obtain ⟨last, done, complete⟩ :=
    (@Scan.passes_iff_continues _ _ base.announcedLength _ _ start).2 h.complete
  have nonempty : digits.isEmpty = false := List.isEmpty_eq_false_iff.2 h.nonempty
  have noZero : ¬(base = .decimal ∧ hasLeadingZero digits = true) := by
    rintro ⟨decimal, zero⟩
    rw [h.noZero decimal] at zero
    cases zero
  refine ⟨last, ?_, ?_⟩
  · rw [Scan.part_eq_whole_iff_of_run start done]
    exact and_iff_right rfl
  · simp only [read, readChars, h.announced, nonempty, Bool.false_eq_true, if_false, noZero, done,
      complete]

/-- Digits without a separator of parts are a whole number. -/
theorem read_whole (h : Sound text base digits) (inner : ∀ c ∈ digits, base.Inner c) :
    read text =
      if numeral base.radix digits < wholeLimit then .ok (.whole (numeral base.radix digits))
      else .error .overflow := by
  obtain ⟨last, part, value⟩ := h.exists_evaluate
  obtain ⟨noExponent, noPeriod⟩ := Scan.part_eq_whole_iff.1 (part.2 inner)
  rw [value, evaluate_whole digits ⟨noPeriod, noExponent⟩]
  rfl

/-- Digits with a separator of parts are evaluated without the separators of digits. -/
theorem read_real (h : Sound text base digits) (separated : ∃ c ∈ digits, ¬ base.Inner c) :
    read text = if base = .hexadecimal then ofHexText (plainChars digits)
      else ofDecimalText (plainChars digits) := by
  obtain ⟨last, part, value⟩ := h.exists_evaluate
  obtain ⟨c, mem, separates⟩ := separated
  have outside : last.part ≠ .whole := by
    rw [Ne, part]
    exact fun inner => separates (inner c mem)
  have real : (!last.seenPeriod && !last.seenExponent) = false := by
    rw [Ne, Scan.part_eq_whole_iff] at outside
    simpa [and_comm] using outside
  simp only [value, evaluate, real, Bool.false_eq_true, if_false]
  rfl

end Sound

end Literal

end Metrology
