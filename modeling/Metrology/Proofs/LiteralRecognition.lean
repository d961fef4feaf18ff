/-
Module: Metrology.Proofs.LiteralRecognition
Layer: Proofs
Purpose: Which texts the reader of literals takes. What the pass remembers is a place in a number,
  one character takes it to a next place exactly when the grammar allows that, and so a whole pass
  ends without a defect exactly on the texts that complete a number. The texts taken are the
  literals of the grammar, and beside them the powers without a number.
Imports: Mathlib.Tactic.SplitIfs, Metrology.Proofs.LiteralGrammar, Metrology.Proofs.Outcome
Main exports: Scan.At, Scan.advances_of_read, Scan.read_of_advances, Scan.passes_iff_continues,
  Literal.taken_iff_literalText_or_bareExponent
-/
import Mathlib.Tactic.SplitIfs
import Metrology.Proofs.LiteralGrammar
import Metrology.Proofs.Outcome

namespace Metrology

/-- The kind of the last character before a place. -/
def NumberPlace.last : NumberPlace → Last
  | start => .start
  | digit _ => .digit
  | underscore _ => .underscore
  | period => .period
  | mark => .exponent
  | sign => .sign

namespace Scan

/-! ### Places of the pass -/

/-- The part of the number that the pass is in. -/
def part (s : Scan) : NumberPart :=
  if s.seenExponent then .exponent else if s.seenPeriod then .fraction else .whole

/-- The pass stands at a place. -/
def At (s : Scan) (place : NumberPlace) : Prop := s.last = place.last ∧ s.part = place.part

/-- Where the last character was does not matter. -/
theorem At.noted {s : Scan} {place : NumberPlace} (at_ : s.At place) (offset : Nat) :
    Scan.At { s with lastOffset := offset } place := at_

theorem initial_at (offset : Nat) : (initial offset).At .start := ⟨rfl, rfl⟩

theorem part_eq_exponent_iff {s : Scan} : s.part = .exponent ↔ s.seenExponent = true := by
  unfold part
  cases s.seenExponent <;> cases s.seenPeriod <;> decide

theorem part_eq_whole_iff {s : Scan} :
    s.part = .whole ↔ s.seenExponent = false ∧ s.seenPeriod = false := by
  unfold part
  cases s.seenExponent <;> cases s.seenPeriod <;> decide

/-- The pass expects the digits of its part. -/
theorem radix_eq (base : Base) (s : Scan) :
    (if s.seenExponent then 10 else base.radix) = s.part.radix base := by
  unfold part
  cases s.seenExponent <;> cases s.seenPeriod <;> rfl

/-! ### One character -/

variable {base : Base} {s next : Scan} {offset : Nat} {c : Char} {place after : NumberPlace}

/-- A digit of a part is none of the characters with a meaning of their own. -/
theorem plain_of_isDigitOf {part : NumberPart} (digit : isDigitOf (part.radix base) c = true) :
    c ≠ '_' ∧ c ≠ '.' ∧ base.isExponentMark c = false ∧ c ≠ '+' ∧ c ≠ '-' := by
  have noMark : base.isExponentMark c = false := by
    rw [Bool.eq_false_iff]
    intro marks
    exact ne_of_isDigitOf digit (Base.isDigitOf_mark marks part) rfl
  refine ⟨?_, ?_, noMark, ?_, ?_⟩
  all_goals
    apply ne_of_isDigitOf digit
    cases base <;> cases part <;> rfl

/-- The mark of a power is no other separator. -/
theorem ne_of_isExponentMark (marks : base.isExponentMark c = true) : c ≠ '_' ∧ c ≠ '.' := by
  constructor <;> rintro rfl <;> cases base <;> cases marks

theorem advances_of_readUnderscore (at_ : s.At place) (isUnderscore : c = '_')
    (done : s.readUnderscore offset = .ok next) :
    ∃ after, NumberPlace.Advances base c place after ∧ next.At after := by
  unfold readUnderscore at done
  split_ifs at done with isDigit
  obtain rfl := Except.ok.inj done
  obtain ⟨last, part⟩ := at_
  rw [isDigit] at last
  cases place <;> cases last
  exact ⟨_, .underscore isUnderscore, rfl, part⟩

theorem advances_of_readPeriod (at_ : s.At place) (isPeriod : c = '.')
    (done : s.readPeriod base = .ok next) :
    ∃ after, NumberPlace.Advances base c place after ∧ next.At after := by
  unfold readPeriod at done
  split_ifs at done with noFraction inPower twice afterUnderscore atStart
  obtain rfl := Except.ok.inj done
  obtain ⟨last, part⟩ := at_
  have whole : s.part = .whole := part_eq_whole_iff.2 (by simp [inPower, twice])
  rw [whole] at part
  cases place with
  | start => exact absurd last atStart
  | underscore _ => exact absurd last afterUnderscore
  | period | mark | sign => cases part
  | digit _ =>
      obtain rfl := part
      refine ⟨.period, .period (by simpa using noFraction) isPeriod, rfl, ?_⟩
      simp [Scan.part, inPower, NumberPlace.part]

/-- A mark is refused inside a power and after `_`; after a point it is refused as no digit. -/
theorem advances_of_readExponentMark (at_ : s.At place) (marks : base.isExponentMark c = true)
    (notAfterPeriod : s.last ≠ .period) (done : s.readExponentMark = .ok next) :
    ∃ after, NumberPlace.Advances base c place after ∧ next.At after := by
  unfold readExponentMark at done
  split_ifs at done with inPower afterUnderscore
  obtain rfl := Except.ok.inj done
  obtain ⟨last, part⟩ := at_
  have outside : place.part ≠ .exponent := by rwa [← part, Ne, part_eq_exponent_iff]
  refine ⟨.mark, .mark marks ?_, rfl, by simp [Scan.part, NumberPlace.part]⟩
  cases place with
  | start => exact .inl rfl
  | underscore _ => exact absurd last afterUnderscore
  | period => exact absurd last notAfterPeriod
  | mark | sign => exact absurd rfl outside
  | digit inner =>
      cases inner with
      | whole => exact .inr (.inl rfl)
      | fraction => exact .inr (.inr rfl)
      | exponent => exact absurd rfl outside

theorem advances_of_readDigit (at_ : s.At place) (done : s.readDigit base c = .ok next) :
    ∃ after, NumberPlace.Advances base c place after ∧ next.At after := by
  rw [readDigit, radix_eq, at_.2] at done
  split_ifs at done with digit
  obtain rfl := Except.ok.inj done
  exact ⟨_, .digit digit, rfl, at_.2⟩

/-- What the pass does with a character, the grammar allows. -/
theorem advances_of_read (at_ : s.At place) (done : s.read base offset c = .ok next) :
    ∃ after, NumberPlace.Advances base c place after ∧ next.At after := by
  unfold read at done
  split_ifs at done with inFraction isUnderscore isPeriod marks signs
  · exact advances_of_readUnderscore at_ isUnderscore done
  · exact advances_of_readPeriod at_ isPeriod done
  · have notAfterPeriod : s.last ≠ .period := by
      intro last
      have noDigit : isDigitOf base.radix c = false := Base.isDigitOf_mark marks .whole
      exact inFraction ⟨last, isUnderscore, by simpa using noDigit⟩
    exact advances_of_readExponentMark at_ marks notAfterPeriod done
  · obtain rfl := Except.ok.inj done
    obtain ⟨last, part⟩ := at_
    rw [signs.2] at last
    cases place <;> cases last
    exact ⟨.sign, .sign signs.1, rfl, part⟩
  · exact advances_of_readDigit at_ done

/-- What the grammar allows, the pass does. -/
theorem read_of_advances (at_ : s.At place) (advances : NumberPlace.Advances base c place after) :
    ∃ next, s.read base offset c = .ok next ∧ next.At after := by
  obtain ⟨last, part⟩ := at_
  cases advances with
  | digit digit =>
      obtain ⟨noUnderscore, noPeriod, noMark, noPlus, noMinus⟩ := plain_of_isDigitOf digit
      have inPeriod : s.last = .period → isDigitOf base.radix c = true := by
        intro period
        cases place with
        | period => exact digit
        | start | digit _ | underscore _ | mark | sign => rw [period] at last; cases last
      refine ⟨{ s with last := .digit }, ?_, rfl, part⟩
      rw [← part, ← radix_eq] at digit
      simp [read, readDigit, noUnderscore, noPeriod, noMark, noPlus, noMinus, digit]
      exact inPeriod
  | underscore isUnderscore =>
      subst isUnderscore
      refine ⟨{ s with last := .underscore }, ?_, rfl, part⟩
      simp [read, readUnderscore, last, NumberPlace.last]
  | period allowed isPeriod =>
      obtain ⟨noExponent, noPeriod⟩ := part_eq_whole_iff.1 part
      subst isPeriod
      refine ⟨{ s with last := .period, seenPeriod := true }, ?_, rfl, ?_⟩
      · simp [read, readPeriod, last, NumberPlace.last, allowed, noExponent, noPeriod]
      · simp [Scan.part, noExponent, NumberPlace.part]
  | mark marks ready =>
      obtain ⟨noUnderscore, noPeriod⟩ := ne_of_isExponentMark marks
      refine ⟨{ s with last := .exponent, seenExponent := true }, ?_, rfl, ?_⟩
      · have noExponent : s.seenExponent = false := by
          rw [Bool.eq_false_iff, Ne, ← part_eq_exponent_iff, part]
          rcases ready with rfl | rfl | rfl <;> decide
        rcases ready with rfl | rfl | rfl <;>
          simp [read, readExponentMark, last, NumberPlace.last, marks, noUnderscore, noPeriod,
            noExponent]
      · simp [Scan.part, NumberPlace.part]
  | sign signs =>
      refine ⟨{ s with last := .sign }, ?_, rfl, part⟩
      rcases signs with rfl | rfl <;>
        cases base <;> simp [read, last, NumberPlace.last, Base.isExponentMark]

/-- Noting its place does not change what a character does. -/
theorem step_eq_ok_iff :
    s.step base offset c = .ok next ↔
      ∃ done, s.read base offset c = .ok done ∧ { done with lastOffset := offset } = next :=
  map_eq_ok_iff

/-! ### A whole pass -/

/-- A text may end where the grammar allows that. -/
theorem endDefect?_eq_none_iff (at_ : s.At place) :
    s.endDefect? = none ↔ place.Continues base [] := by
  rw [NumberPlace.continues_nil, endDefect?, at_.1]
  cases place <;> simp [NumberPlace.last]

/-- The pass finds no defect exactly in the texts that complete a number. -/
theorem passes_iff_continues {cs : List Char} (at_ : s.At place) :
    (∃ last, s.run base offset cs = .ok last ∧ last.endDefect? = none) ↔
      place.Continues base cs := by
  induction cs generalizing s offset place with
  | nil =>
      rw [← endDefect?_eq_none_iff at_]
      simp [run]
  | cons c cs ih =>
      rw [NumberPlace.continues_cons]
      constructor
      · rintro ⟨last, done, complete⟩
        rw [run] at done
        split at done
        · next next stepped =>
            obtain ⟨read, isRead, rfl⟩ := step_eq_ok_iff.1 stepped
            obtain ⟨after, advances, nextAt⟩ := advances_of_read at_ isRead
            exact ⟨after, advances, (ih (nextAt.noted offset)).1 ⟨last, done, complete⟩⟩
        · cases done
      · rintro ⟨after, advances, continues⟩
        obtain ⟨read, isRead, nextAt⟩ := @read_of_advances _ _ offset _ _ _ at_ advances
        have stepped := step_eq_ok_iff.2 ⟨read, isRead, rfl⟩
        obtain ⟨last, done, complete⟩ := (ih (nextAt.noted offset)).2 continues
        refine ⟨last, ?_, complete⟩
        rw [run, stepped]
        exact done

/-- The defects of the form of a text do not speak of its magnitude. -/
theorem read_ne_overflow : s.read base offset c ≠ .error .overflow := by
  unfold read readUnderscore readPeriod readExponentMark readDigit
  split_ifs <;> simp

theorem run_ne_overflow {cs : List Char} : s.run base offset cs ≠ .error .overflow := by
  induction cs generalizing s offset with
  | nil => simp [run]
  | cons c cs ih =>
      rw [run]
      split
      · exact ih
      · next defect stepped =>
          rintro ⟨⟩
          exact read_ne_overflow (map_eq_error_iff.1 stepped)

theorem endDefect?_ne_overflow : s.endDefect? ≠ some .overflow := by
  unfold endDefect?
  split <;> simp

end Scan

/-! ### The announced base -/

/-- The characters that announce a base. -/
def Base.announcement : Base → List Char
  | binary => ['0', 'b']
  | octal => ['0', 'o']
  | decimal => []
  | hexadecimal => ['0', 'x']

theorem Base.eq_of_split {text digits : List Char} {base : Base}
    (h : Base.split text = (base, digits)) : text = base.announcement ++ digits := by
  unfold Base.split at h
  split at h <;> cases h <;> rfl

theorem ExponentPart.split {base : Base} {cs : List Char} (power : ExponentPart base cs) :
    Base.split cs = (.decimal, cs) := by
  unfold Base.split
  split
  · exact absurd rfl power.ne_zero_cons
  · exact absurd rfl power.ne_zero_cons
  · exact absurd rfl power.ne_zero_cons
  · rfl

/-- Without fractions and powers nothing follows the digits. -/
theorem Ending.eq_nil {base : Base} {cs : List Char} (after : Ending base cs)
    (integral : base = .octal ∨ base = .binary) : cs = [] := by
  cases cs with
  | nil => rfl
  | cons c cs =>
      rcases NumberPlace.ending_cons.1 after with ⟨allowed, -, -⟩ | power
      · rcases integral with rfl | rfl <;> cases allowed
      · obtain ⟨marks, -⟩ := NumberPlace.exponent_cons.1 power
        rcases integral with rfl | rfl <;> cases marks

section Announced

variable {text digits : List Char} {base : Base}

/-- After its announcement a literal is a number in its base, without a superfluous zero. -/
theorem literalText_iff_of_split (h : Base.split text = (base, digits)) :
    LiteralText text ↔
      NumberPlace.Run base .start digits ∧
        (base = .decimal → Literal.hasLeadingZero digits = false) := by
  constructor
  · intro literal
    cases literal with
    | decimal isWhole after =>
        rw [isWhole.split after] at h
        cases h
        exact ⟨⟨_, _, rfl, isWhole.digits, after⟩, fun _ => isWhole.hasLeadingZero after⟩
    | hexadecimal run after =>
        cases h
        exact ⟨⟨_, _, rfl, run, after⟩, nofun⟩
    | octal run | binary run =>
        cases h
        exact ⟨⟨_, [], (List.append_nil _).symm, run, .plain .absent⟩, nofun⟩
  · rintro ⟨⟨whole, ending, rfl, run, after⟩, noZero⟩
    rw [Base.eq_of_split h]
    cases base with
    | decimal =>
        have isWhole : DecimalWhole whole := run.decimalWhole
          (Literal.hasLeadingZero_of_append (noZero rfl))
        exact @LiteralText.decimal whole ending isWhole after
    | hexadecimal => exact @LiteralText.hexadecimal whole ending run after
    | octal =>
        rw [after.eq_nil (.inl rfl), List.append_nil]
        exact .octal run
    | binary =>
        rw [after.eq_nil (.inr rfl), List.append_nil]
        exact .binary run

theorem bareExponent_iff_of_split (h : Base.split text = (base, digits)) :
    BareExponent text ↔ ExponentPart base digits := by
  constructor
  · intro bare
    cases bare with
    | decimal power =>
        rw [power.split] at h
        cases h
        exact power
    | hexadecimal power =>
        cases h
        exact power
  · intro power
    rw [Base.eq_of_split h]
    cases base with
    | decimal => exact .decimal power
    | hexadecimal => exact .hexadecimal power
    | octal | binary =>
        obtain ⟨mark, rest, rfl, marks⟩ := power.head
        cases marks

end Announced

/-! ### The texts taken -/

namespace Literal

/-- A reading that takes a text for a number: the number, or that its magnitude is out of range. -/
def Taken (reading : Except LiteralError Literal) : Prop :=
  (∃ literal, reading = .ok literal) ∨ reading = .error .overflow

theorem taken_ok (literal : Literal) : Taken (.ok literal) := .inl ⟨literal, rfl⟩

theorem taken_overflow : Taken (.error .overflow) := .inr rfl

theorem not_taken_error {defect : LiteralError} (form : defect ≠ .overflow) :
    ¬ Taken (.error defect) := by
  rintro (⟨literal, value⟩ | overflow)
  · cases value
  · exact form (Except.error.inj overflow)

/-- A reading of a number with a fraction or a power: a double, or that its magnitude is out of
    range. -/
def IsReal (reading : Except LiteralError Literal) : Prop :=
  (∃ x, reading = .ok (.real x)) ∨ reading = .error .overflow

theorem IsReal.taken {reading : Except LiteralError Literal} (h : IsReal reading) :
    Taken reading :=
  h.imp_left fun ⟨x, value⟩ => ⟨.real x, value⟩

theorem IsReal.ne_whole {reading : Except LiteralError Literal} (h : IsReal reading) (n : Nat) :
    reading ≠ .ok (.whole n) := by
  rcases h with ⟨x, rfl⟩ | rfl <;> simp

theorem ofDouble_isReal (x : Double) : IsReal (ofDouble x) := by
  unfold ofDouble
  split
  · exact .inl ⟨x, rfl⟩
  · exact .inr rfl

theorem ofDecimalText_isReal (digits : List Char) : IsReal (ofDecimalText digits) := by
  unfold ofDecimalText
  split
  · exact ofDouble_isReal _
  · exact .inr rfl

theorem ofHexText_isReal (digits : List Char) : IsReal (ofHexText digits) := by
  unfold ofHexText
  dsimp only
  split
  · split
    · exact ofDouble_isReal _
    · exact .inr rfl
  · exact .inr rfl

/-- Evaluation has no defects of form left to report. -/
theorem evaluate_taken (base : Base) (s : Scan) (digits : List Char) :
    Taken (evaluate base s digits) := by
  unfold evaluate
  dsimp only
  split_ifs
  · split
    · exact taken_ok _
    · exact taken_overflow
  · exact (ofHexText_isReal _).taken
  · exact (ofDecimalText_isReal _).taken

/-- A text is taken when its announced digits are there, do not begin with a superfluous zero and
    complete a number. -/
theorem taken_iff_continues {text : String} {base : Base} {digits : List Char}
    (announced : Base.split text.toList = (base, digits)) :
    Taken (read text) ↔ digits ≠ [] ∧ (base = .decimal → hasLeadingZero digits = false) ∧
      NumberPlace.start.Continues base digits := by
  rw [← @Scan.passes_iff_continues base _ base.announcedLength _ digits
    (Scan.initial_at base.announcedLength), read, readChars, announced]
  dsimp only
  split_ifs with empty zero
  · have none : digits = [] := List.isEmpty_iff.1 empty
    exact iff_of_false (not_taken_error (by decide)) fun ⟨some_, _⟩ => some_ none
  · refine iff_of_false (not_taken_error (by decide)) ?_
    rintro ⟨-, noZero, -⟩
    rw [noZero zero.1] at zero
    cases zero.2
  have some_ : digits ≠ [] := fun none => empty (List.isEmpty_iff.2 none)
  have noZero : base = .decimal → hasLeadingZero digits = false := by
    intro decimal
    simpa [decimal] using zero
  rw [and_iff_right some_, and_iff_right noZero]
  cases pass : (Scan.initial base.announcedLength).run base base.announcedLength digits with
  | error defect =>
      have form : defect ≠ .overflow := by
        rintro rfl
        exact Scan.run_ne_overflow pass
      exact iff_of_false (not_taken_error form) nofun
  | ok last =>
      cases final : last.endDefect? with
      | some defect =>
          have form : defect ≠ .overflow := by
            rintro rfl
            exact Scan.endDefect?_ne_overflow final
          simp [not_taken_error form, final]
      | none => simp [evaluate_taken, final]

/-- At its start a text is completed by a number, or by a power alone. -/
theorem taken_iff_run {text : String} {base : Base} {digits : List Char}
    (announced : Base.split text.toList = (base, digits)) :
    Taken (read text) ↔
      (NumberPlace.Run base .start digits ∧ (base = .decimal → hasLeadingZero digits = false)) ∨
        ExponentPart base digits := by
  rw [taken_iff_continues announced]
  constructor
  · rintro ⟨some_, noZero, empty | run | power⟩
    · exact absurd empty some_
    · exact .inl ⟨run, noZero⟩
    · exact .inr power
  · rintro (⟨run, noZero⟩ | power)
    · refine ⟨?_, noZero, .inr (.inl run)⟩
      rintro rfl
      exact not_digitsThen_nil run
    · refine ⟨?_, ?_, .inr (.inr power)⟩
      · obtain ⟨mark, rest, rfl, -⟩ := power.head
        exact List.cons_ne_nil mark rest
      · intro _
        unfold hasLeadingZero
        split
        · exact absurd rfl power.ne_zero_cons
        · rfl

/-- The texts taken are the literals of the grammar and, beside them, the powers without a number;
    every other text is rejected for a defect of its form. -/
theorem taken_iff_literalText_or_bareExponent (text : String) :
    (Taken (read text) ↔ LiteralText text.toList ∨ BareExponent text.toList) ∧
      ¬ (LiteralText text.toList ∧ BareExponent text.toList) ∧
      (Taken (read text) ∨ ∃ defect, defect ≠ .overflow ∧ read text = .error defect) := by
  refine ⟨?_, fun ⟨literal, bare⟩ => literal.not_bareExponent bare, ?_⟩
  · rw [taken_iff_run rfl, literalText_iff_of_split rfl, bareExponent_iff_of_split rfl]
  · cases read text with
    | ok literal => exact .inl (taken_ok literal)
    | error defect =>
        rcases Decidable.em (defect = .overflow) with rfl | form
        · exact .inl taken_overflow
        · exact .inr ⟨defect, form, rfl⟩

/-- A power of two without digits before it is read as zero, and one of ten as out of range. -/
theorem taken_power_without_digits :
    (read "0xp3" = .ok (.real (.zero false)) ∧ ¬ LiteralText "0xp3".toList) ∧
      (read "e5" = .error .overflow ∧ ¬ LiteralText "e5".toList) := by
  refine ⟨⟨by decide +kernel, ?_⟩, ⟨by decide +kernel, ?_⟩⟩
  · intro literal
    exact literal.not_bareExponent (.hexadecimal (.unsigned rfl (.single rfl)))
  · intro literal
    exact literal.not_bareExponent (.decimal (.unsigned rfl (.single rfl)))

end Literal

end Metrology
