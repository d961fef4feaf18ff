/-
Module: Metrology.Proofs.LiteralDefects
Layer: Proofs
Purpose: What the defects of a literal say of its text. Each defect is a statement about the text
  alone: what stands in it, at which byte, or how it begins and ends. What the pass remembers of the
  characters behind it is enough for the statement of each defect that it reports. One of them can
  be false: a digit that does not belong into a power is reported as none of the announced base,
  and in a hexadecimal it may be one; this is the only exception.
Imports: Mathlib.Tactic.SplitIfs, Metrology.Span, Metrology.Proofs.LiteralRecognition
Main exports: LiteralError.HoldsIn, LetterInPower, Scan.Remembers, Scan.Remembers.of_run,
  Scan.run_eq_error_iff, Scan.Remembers.holdsIn_or_misnamed, Literal.read_error_holdsIn_iff
-/
import Mathlib.Tactic.SplitIfs
import Metrology.Span
import Metrology.Proofs.LiteralRecognition

namespace Metrology

/-! ### Defects as statements -/

/-- The radix of the digits that stand behind these characters of a text. -/
def Base.radixBehind (base : Base) (front : List Char) : Nat :=
  if front.any base.isExponentMark then 10 else base.radix

/-- The characters before and after a place are both digits there. -/
def Base.BetweenDigits (base : Base) (front back : List Char) : Prop :=
  (∃ c ∈ front.getLast?, isDigitOf (base.radixBehind front) c = true) ∧
    ∃ c ∈ back.head?, isDigitOf (base.radixBehind front) c = true

/-- What a defect says of a text in a base. A magnitude out of range says nothing of the form. -/
def LiteralError.HoldsIn (base : Base) (text : List Char) : LiteralError → Prop
  | leadingZero =>
      base = .decimal ∧
        ∃ next rest, text = '0' :: next :: rest ∧ (isDigitOf 10 next = true ∨ next = '_')
  | invalidUnderscore offset =>
      ∃ front back, text = front ++ '_' :: back ∧ byteLength front = offset ∧
        ¬ base.BetweenDigits front back
  | duplicatePeriod => 2 ≤ text.count '.'
  | periodAfterExponent =>
      ∃ front back, text = front ++ '.' :: back ∧ front.any base.isExponentMark = true
  | trailingPeriod =>
      ∃ front back, text = front ++ '.' :: back ∧ ∀ c ∈ back.head?, isDigitOf base.radix c = false
  | duplicateExponent => 2 ≤ text.countP base.isExponentMark
  | missingExponentDigits =>
      ∃ front mark signs, text = front ++ mark :: signs ∧ base.isExponentMark mark = true ∧
        (signs = [] ∨ signs = ['+'] ∨ signs = ['-'])
  | invalidDigit digit named => digit ∈ text ∧ isDigitOf named.radix digit = false
  | missingDigits =>
      text = base.announcement ∨ ∃ rest, text = base.announcement ++ '.' :: rest
  | overflow => True

/-- A hexadecimal with a letter for a digit of its power: a decimal digit in place of the letter
    would complete a number. -/
def LetterInPower (text : List Char) : Prop :=
  ∃ front letter back, text = '0' :: 'x' :: (front ++ letter :: back) ∧
    front.any Base.hexadecimal.isExponentMark = true ∧
    NumberPlace.start.Continues .hexadecimal (front ++ ['0']) ∧
    isDigitOf 16 letter = true ∧ isDigitOf 10 letter = false

/-! ### What the pass remembers -/

namespace Scan

variable {base : Base} {s next : Scan} {front back : List Char} {c : Char} {defect : LiteralError}

/-- How characters end, by the kind of the last one. An underscore is remembered with its place, and
    a digit is not looked at again. -/
inductive EndsIn (base : Base) : Last → Nat → List Char → Prop where
  | start {offset : Nat} : EndsIn base .start offset base.announcement
  | digit {offset : Nat} {front : List Char} : EndsIn base .digit offset front
  | underscore {front : List Char} : EndsIn base .underscore (byteLength front) (front ++ ['_'])
  | period {offset : Nat} {front : List Char} : EndsIn base .period offset (front ++ ['.'])
  | exponent {offset : Nat} {front : List Char} {mark : Char}
      (marks : base.isExponentMark mark = true) : EndsIn base .exponent offset (front ++ [mark])
  | sign {offset : Nat} {front : List Char} {mark sign : Char}
      (marks : base.isExponentMark mark = true) (signs : sign = '+' ∨ sign = '-') :
      EndsIn base .sign offset (front ++ [mark, sign])

/-- A sign goes on right behind a mark. -/
theorem EndsIn.sign_of_exponent {offset after : Nat} (last : EndsIn base .exponent offset front)
    (signs : c = '+' ∨ c = '-') : EndsIn base .sign after (front ++ [c]) := by
  cases last with
  | exponent marks =>
      rw [List.append_assoc]
      exact .sign marks signs

/-- The pass stands behind these characters of a text, its announcement included. -/
structure Remembers (base : Base) (front : List Char) (s : Scan) : Prop where
  period : s.seenPeriod = true → '.' ∈ front
  exponent : s.seenExponent = front.any base.isExponentMark
  last : EndsIn base s.last s.lastOffset front

theorem byteLength_announcement (base : Base) :
    byteLength base.announcement = base.announcedLength := by
  cases base <;> rfl

theorem any_announcement (base : Base) : base.announcement.any base.isExponentMark = false := by
  cases base <;> rfl

theorem remembers_initial (base : Base) :
    (initial base.announcedLength).Remembers base base.announcement :=
  ⟨nofun, (any_announcement base).symm, .start⟩

/-- The characters with a meaning of their own are no digits, and no marks of powers either. -/
theorem isDigitOf_separator (isSeparator : c = '_' ∨ c = '.' ∨ c = '+' ∨ c = '-') (radix : Nat) :
    isDigitOf radix c = false := by
  rcases isSeparator with rfl | rfl | rfl | rfl <;> simp [isDigitOf, digitValue?]

theorem isExponentMark_separator (isSeparator : c = '_' ∨ c = '.' ∨ c = '+' ∨ c = '-') :
    base.isExponentMark c = false := by
  rcases isSeparator with rfl | rfl | rfl | rfl <;> cases base <;> rfl

/-- The mark of a power is a digit neither of the power nor of what stands before it. -/
theorem isDigitOf_mark (marks : base.isExponentMark c = true) (front : List Char) :
    isDigitOf (base.radixBehind front) c = false := by
  unfold Base.radixBehind
  split
  · exact Base.isDigitOf_mark marks .exponent
  · exact Base.isDigitOf_mark marks .whole

theorem isExponentMark_of_isDigitOf (digit : isDigitOf (base.radixBehind front) c = true) :
    base.isExponentMark c = false := by
  rw [Bool.eq_false_iff]
  intro marks
  exact ne_of_isDigitOf digit (isDigitOf_mark marks front) rfl

/-- Only where the pass remembers a digit do the characters end in one. -/
theorem EndsIn.getLast?_not_digit {kind : Last} {offset : Nat}
    (last : EndsIn base kind offset front) (other : kind ≠ .digit) :
    ∀ d ∈ front.getLast?, isDigitOf (base.radixBehind front) d = false := by
  cases last with
  | start => cases base <;> simp [Base.announcement] <;> rfl
  | digit => exact absurd rfl other
  | underscore => simp [isDigitOf_separator]
  | period => simp [isDigitOf_separator]
  | exponent marks => simp [isDigitOf_mark marks]
  | sign _ signs => rcases signs with rfl | rfl <;> simp [isDigitOf_separator]

namespace Remembers

/-- The pass expects the digits of its place. -/
theorem radixBehind_eq (behind : s.Remembers base front) :
    (if s.seenExponent then 10 else base.radix) = base.radixBehind front := by
  rw [behind.exponent, Base.radixBehind]

theorem endsIn {kind : Last} (behind : s.Remembers base front) (last : s.last = kind) :
    EndsIn base kind s.lastOffset front :=
  last ▸ behind.last

/-- A character that separates no parts adds only itself to what is remembered. -/
theorem concat {kind : Last} {offset : Nat} (behind : s.Remembers base front)
    (noMark : base.isExponentMark c = false) (last : EndsIn base kind offset (front ++ [c])) :
    Remembers base (front ++ [c]) { s with last := kind, lastOffset := offset } where
  period seen := List.mem_append_left _ (behind.period seen)
  exponent := by simp [behind.exponent, noMark]
  last := last

/-- A character that the pass takes is remembered. -/
theorem of_step (behind : s.Remembers base front)
    (done : s.step base (byteLength front) c = .ok next) : next.Remembers base (front ++ [c]) := by
  obtain ⟨taken, isRead, rfl⟩ := step_eq_ok_iff.1 done
  unfold read at isRead
  split_ifs at isRead with inFraction isUnderscore isPeriod marks signs
  · subst isUnderscore
    unfold readUnderscore at isRead
    split_ifs at isRead
    obtain rfl := Except.ok.inj isRead
    exact behind.concat (isExponentMark_separator (.inl rfl)) .underscore
  · subst isPeriod
    unfold readPeriod at isRead
    split_ifs at isRead
    obtain rfl := Except.ok.inj isRead
    refine ⟨fun _ => List.mem_append_right _ List.mem_cons_self, ?_, .period⟩
    simp [behind.exponent, isExponentMark_separator]
  · unfold readExponentMark at isRead
    split_ifs at isRead
    obtain rfl := Except.ok.inj isRead
    refine ⟨fun seen => List.mem_append_left _ (behind.period seen), ?_, .exponent marks⟩
    simp [marks]
  · obtain rfl := Except.ok.inj isRead
    have noMark : base.isExponentMark c = false :=
      isExponentMark_separator (.inr (.inr signs.1))
    exact behind.concat noMark ((behind.endsIn signs.2).sign_of_exponent signs.1)
  · rw [readDigit, behind.radixBehind_eq] at isRead
    split_ifs at isRead with digit
    obtain rfl := Except.ok.inj isRead
    exact behind.concat (isExponentMark_of_isDigitOf digit) .digit

/-! ### Defects that the pass reports -/

/-- An underscore behind anything but a digit does not stand between two. -/
theorem holdsIn_of_readUnderscore (behind : s.Remembers base front) (isUnderscore : c = '_')
    (failed : s.readUnderscore (byteLength front) = .error defect) :
    defect.HoldsIn base (front ++ c :: back) := by
  unfold readUnderscore at failed
  split_ifs at failed with last
  cases failed
  refine ⟨front, back, by rw [isUnderscore], rfl, ?_⟩
  rintro ⟨⟨d, mem, digit⟩, -⟩
  exact ne_of_isDigitOf digit (behind.last.getLast?_not_digit last d mem) rfl

/-- Neither does one before anything but a digit; it is reported with the character behind it. -/
theorem holdsIn_of_underscore (behind : s.Remembers base front) (last : s.last = .underscore)
    (noDigit : ∀ c ∈ back.head?, ∀ front, isDigitOf (base.radixBehind front) c = false) :
    (LiteralError.invalidUnderscore s.lastOffset).HoldsIn base (front ++ back) := by
  have ends := behind.endsIn last
  generalize s.lastOffset = offset at ends
  cases ends with
  | @underscore before =>
      refine ⟨before, back, List.append_assoc .., rfl, ?_⟩
      rintro ⟨-, d, mem, digit⟩
      exact ne_of_isDigitOf digit (noDigit d mem before) rfl

theorem holdsIn_of_readPeriod (behind : s.Remembers base front) (isPeriod : c = '.')
    (failed : s.readPeriod base = .error defect) :
    defect.HoldsIn base (front ++ c :: back) := by
  subst isPeriod
  unfold readPeriod at failed
  split_ifs at failed with noFraction inPower twice afterUnderscore atStart <;> cases failed
  · exact ⟨List.mem_append_right _ List.mem_cons_self, isDigitOf_separator (by decide) _⟩
  · exact ⟨front, back, rfl, behind.exponent ▸ inPower⟩
  · have before : 0 < front.count '.' := List.count_pos_iff.2 (behind.period twice)
    simp only [LiteralError.HoldsIn, List.count_append, List.count_cons_self]
    omega
  · refine behind.holdsIn_of_underscore afterUnderscore fun c mem front => ?_
    obtain rfl : '.' = c := Option.some.inj mem
    exact isDigitOf_separator (by decide) _
  · cases behind.endsIn atStart
    exact .inr ⟨back, rfl⟩

theorem holdsIn_of_readExponentMark (behind : s.Remembers base front)
    (marks : base.isExponentMark c = true) (failed : s.readExponentMark = .error defect) :
    defect.HoldsIn base (front ++ c :: back) := by
  unfold readExponentMark at failed
  split_ifs at failed with inPower afterUnderscore <;> cases failed
  · have before : 0 < front.countP base.isExponentMark := by
      rw [List.countP_pos_iff, ← List.any_eq_true, ← behind.exponent]
      exact inPower
    simp only [LiteralError.HoldsIn, List.countP_append, List.countP_cons_of_pos marks]
    omega
  · refine behind.holdsIn_of_underscore afterUnderscore fun d mem front => ?_
    obtain rfl : c = d := Option.some.inj mem
    exact isDigitOf_mark marks front

/-- A point is followed by a digit. -/
theorem holdsIn_of_period (behind : s.Remembers base front) (last : s.last = .period)
    (noDigit : ∀ c ∈ back.head?, isDigitOf base.radix c = false) :
    LiteralError.trailingPeriod.HoldsIn base (front ++ back) := by
  cases behind.endsIn last with
  | @period _ before => exact ⟨before, back, List.append_assoc .., noDigit⟩

/-- The defect that a character is reported for holds in the text, unless the character is a digit
    of the announced base where the power needs another one. -/
theorem holdsIn_or_misnamed (behind : s.Remembers base front)
    (failed : s.step base (byteLength front) c = .error defect) :
    defect.HoldsIn base (front ++ c :: back) ∨
      (s.seenExponent = true ∧ isDigitOf base.radix c = true ∧ isDigitOf 10 c = false) := by
  have isRead := map_eq_error_iff.1 failed
  unfold read at isRead
  split_ifs at isRead with inFraction isUnderscore isPeriod marks signs
  · cases isRead
    refine .inl (behind.holdsIn_of_period inFraction.1 fun d mem => ?_)
    obtain rfl : c = d := Option.some.inj mem
    simpa using inFraction.2.2
  · exact .inl (behind.holdsIn_of_readUnderscore isUnderscore isRead)
  · exact .inl (behind.holdsIn_of_readPeriod isPeriod isRead)
  · exact .inl (behind.holdsIn_of_readExponentMark marks isRead)
  · unfold readDigit at isRead
    split_ifs at isRead with inPower digit other <;> cases isRead
    · rcases Decidable.em (isDigitOf base.radix c = true) with announced | other
      · exact .inr ⟨inPower, announced, by simpa using digit⟩
      · exact .inl ⟨List.mem_append_right _ List.mem_cons_self, by simpa using other⟩
    · exact .inl ⟨List.mem_append_right _ List.mem_cons_self, by simpa using other⟩

/-- The defect that a text is reported for at its end holds in it. -/
theorem holdsIn_of_endDefect? (behind : s.Remembers base front)
    (failed : s.endDefect? = some defect) : defect.HoldsIn base front := by
  unfold endDefect? at failed
  split at failed <;> cases failed
  · next last => simpa using @holdsIn_of_underscore _ _ _ [] behind last (by simp)
  · next last => simpa using @holdsIn_of_period _ _ _ [] behind last (by simp)
  · next last =>
      cases behind.endsIn last with
      | @exponent _ before mark marks => exact ⟨before, mark, [], rfl, marks, .inl rfl⟩
  · next last =>
      cases behind.endsIn last with
      | @sign _ before mark sign marks signs =>
          refine ⟨before, mark, [sign], rfl, marks, .inr ?_⟩
          rcases signs with rfl | rfl
          · exact .inl rfl
          · exact .inr rfl

/-- What the pass remembers of a text is what it remembers of the characters that it has taken. -/
theorem of_run {cs : List Char} (behind : s.Remembers base front)
    (done : s.run base (byteLength front) cs = .ok next) : next.Remembers base (front ++ cs) := by
  induction cs generalizing s front with
  | nil =>
      obtain rfl := Except.ok.inj done
      rwa [List.append_nil]
  | cons c cs ih =>
      rw [run] at done
      split at done
      · next after stepped =>
          have further := ih (behind.of_step stepped) (by simpa using done)
          rwa [List.append_assoc] at further
      · cases done

end Remembers

theorem remembers_of_run {cs : List Char}
    (done : (initial base.announcedLength).run base base.announcedLength cs = .ok s) :
    s.Remembers base (base.announcement ++ cs) := by
  refine (remembers_initial base).of_run ?_
  rwa [byteLength_announcement]

/-! ### A pass that fails -/

theorem run_append (base : Base) (s : Scan) (offset : Nat) (front back : List Char) :
    s.run base offset (front ++ back) =
      (s.run base offset front).bind fun next =>
        next.run base (offset + byteLength front) back := by
  induction front generalizing s offset with
  | nil => simp [run, Except.bind]
  | cons c front ih =>
      rw [List.cons_append, run, run]
      cases s.step base offset c with
      | ok next => simp [ih, Nat.add_assoc]
      | error defect => rfl

/-- A pass fails at the first character that it does not take. -/
theorem run_eq_error_iff {offset : Nat} {cs : List Char} :
    s.run base offset cs = .error defect ↔ ∃ front c back next, cs = front ++ c :: back ∧
      s.run base offset front = .ok next ∧
      next.step base (offset + byteLength front) c = .error defect := by
  constructor
  · intro failed
    induction cs generalizing s offset with
    | nil => cases failed
    | cons c cs ih =>
        rw [run] at failed
        split at failed
        · next after stepped =>
            obtain ⟨front, d, back, next, rfl, done, fails⟩ := ih failed
            refine ⟨c :: front, d, back, next, rfl, ?_, by simpa [Nat.add_assoc] using fails⟩
            rw [run, stepped]
            exact done
        · next found stepped =>
            cases failed
            exact ⟨[], c, cs, s, rfl, rfl, stepped⟩
  · rintro ⟨front, c, back, next, rfl, done, fails⟩
    rw [run_append, done]
    simp only [Except.bind, run, fails]

/-- A decimal digit goes on with a power. -/
theorem step_of_digit {offset : Nat} (inPower : s.seenExponent = true)
    (announced : isDigitOf base.radix c = true) (digit : isDigitOf 10 c = true) :
    ∃ next, s.step base offset c = .ok next ∧ next.last = .digit := by
  obtain ⟨noUnderscore, noPeriod, noMark, noPlus, noMinus⟩ :=
    @plain_of_isDigitOf base c .whole announced
  refine ⟨{ s with last := .digit, lastOffset := offset }, ?_, rfl⟩
  simp [step, read, readDigit, inPower, announced, digit, noUnderscore, noPeriod, noMark, noPlus,
    noMinus, Except.map]

/-- A digit of the announced base is no separator, and is refused where the power needs another
    one. -/
theorem step_of_letter {offset : Nat} (inPower : s.seenExponent = true)
    (letter : isDigitOf base.radix c = true) (other : isDigitOf 10 c = false) :
    s.step base offset c = .error (.invalidDigit c base) := by
  obtain ⟨noUnderscore, noPeriod, noMark, noPlus, noMinus⟩ :=
    @plain_of_isDigitOf base c .whole letter
  simp [step, read, readDigit, inPower, letter, other, noUnderscore, noPeriod, noMark, noPlus,
    noMinus, Except.map]

end Scan

namespace Literal

theorem hasLeadingZero_eq_true_iff {digits : List Char} :
    hasLeadingZero digits = true ↔
      ∃ next rest, digits = '0' :: next :: rest ∧ (isDigitOf 10 next = true ∨ next = '_') := by
  constructor
  · intro zero
    unfold hasLeadingZero at zero
    split at zero
    · next next rest => exact ⟨next, rest, rfl, by simpa using zero⟩
    · cases zero
  · rintro ⟨next, rest, rfl, follows⟩
    simpa [hasLeadingZero] using follows

variable {text : String} {defect : LiteralError}

theorem exists_invalidDigit_of_letterInPower (h : LetterInPower text.toList) :
    ∃ letter, read text = .error (.invalidDigit letter .hexadecimal) ∧
      isDigitOf 16 letter = true := by
  obtain ⟨front, letter, back, chars, marked, complete, digit, other⟩ := h
  have start := Scan.initial_at (Base.announcedLength .hexadecimal)
  obtain ⟨_, passes, -⟩ :=
    (@Scan.passes_iff_continues _ _ (Base.announcedLength .hexadecimal) _ _ start).2 complete
  rw [Scan.run_append] at passes
  obtain ⟨s, done, -⟩ := bind_eq_ok_iff.1 passes
  have behind := Scan.remembers_of_run done
  have inPower : s.seenExponent = true := by
    rw [behind.exponent, List.any_append, marked, Bool.or_true]
  have fails := Scan.run_eq_error_iff.2 ⟨front, letter, back, s, rfl, done,
    Scan.step_of_letter inPower digit other⟩
  refine ⟨letter, ?_, digit⟩
  simp only [read, readChars, chars, Base.split]
  simp [fails]

/-- Where the power has other digits than the announced base, that is sixteen, and the characters
    before the refused one go on with a digit. -/
theorem letterInPower_of_misnamed {base : Base} {front back : List Char} {c : Char} {s : Scan}
    (done : (Scan.initial base.announcedLength).run base base.announcedLength front = .ok s)
    (inPower : s.seenExponent = true) (digit : isDigitOf base.radix c = true)
    (other : isDigitOf 10 c = false) :
    LetterInPower (base.announcement ++ (front ++ c :: back)) := by
  have start := Scan.initial_at base.announcedLength
  have marked : front.any base.isExponentMark = true := by
    have behind := (Scan.remembers_of_run done).exponent
    rwa [inPower, List.any_append, Scan.any_announcement, Bool.false_or, eq_comm] at behind
  obtain rfl : base = .hexadecimal := by
    cases base with
    | hexadecimal => rfl
    | decimal => exact absurd rfl (ne_of_isDigitOf digit other)
    | octal | binary =>
        obtain ⟨mark, -, isMark⟩ := List.any_eq_true.1 marked
        cases isMark
  refine ⟨front, c, back, rfl, marked, ?_, digit, other⟩
  rw [← @Scan.passes_iff_continues _ _ (Base.announcedLength .hexadecimal) _ _ start,
    Scan.run_append, done]
  obtain ⟨last, stepped, isDigit⟩ := @Scan.step_of_digit .hexadecimal s '0'
    (Base.announcedLength .hexadecimal + byteLength front) inPower rfl rfl
  refine ⟨last, ?_, by simp [Scan.endDefect?, isDigit]⟩
  simp [Except.bind, Scan.run, stepped]

theorem holdsIn_or_letterInPower (failed : read text = .error defect) :
    defect.HoldsIn (Base.split text.toList).1 text.toList ∨ LetterInPower text.toList := by
  unfold read readChars at failed
  generalize announced : Base.split text.toList = split at failed ⊢
  obtain ⟨base, digits⟩ := split
  rw [Base.eq_of_split announced]
  dsimp only at failed ⊢
  split_ifs at failed with empty zero
  · cases failed
    rw [List.isEmpty_iff.1 empty, List.append_nil]
    exact .inl (.inl rfl)
  · cases failed
    obtain ⟨rfl, zero⟩ := zero
    exact .inl ⟨rfl, hasLeadingZero_eq_true_iff.1 zero⟩
  · cases pass : (Scan.initial base.announcedLength).run base base.announcedLength digits with
    | error found =>
        rw [pass] at failed
        cases failed
        obtain ⟨front, c, back, s, rfl, done, fails⟩ := Scan.run_eq_error_iff.1 pass
        rw [← Scan.byteLength_announcement, ← byteLength_append] at fails
        have outcome := @Scan.Remembers.holdsIn_or_misnamed _ _ _ back _ _
          (Scan.remembers_of_run done) fails
        rw [List.append_assoc] at outcome
        exact outcome.imp_right fun ⟨inPower, digit, other⟩ =>
          letterInPower_of_misnamed done inPower digit other
    | ok last =>
        rw [pass] at failed
        cases final : last.endDefect? with
        | some found =>
            simp only [final] at failed
            cases failed
            exact .inl ((Scan.remembers_of_run pass).holdsIn_of_endDefect? final)
        | none =>
            -- nothing is left to report but a magnitude out of range
            simp only [final] at failed
            have taken := evaluate_taken base last digits
            rw [failed] at taken
            rcases Decidable.em (defect = .overflow) with rfl | form
            · exact .inl trivial
            · exact absurd taken (not_taken_error form)

/-- Each defect that a text is rejected for holds in the text, but for a letter that a hexadecimal
    has for a digit of its power: it is reported as no digit of base sixteen. -/
theorem read_error_holdsIn_iff (failed : read text = .error defect) :
    defect.HoldsIn (Base.split text.toList).1 text.toList ↔ ¬ LetterInPower text.toList := by
  constructor
  · intro holds inPower
    obtain ⟨letter, misnamed, digit⟩ := exists_invalidDigit_of_letterInPower inPower
    rw [failed] at misnamed
    cases misnamed
    exact ne_of_isDigitOf digit holds.2 rfl
  · exact (holdsIn_or_letterInPower failed).resolve_right

/-- An underscore before the mark of a power. -/
theorem read_error_holdsIn_iff_mark :
    read "1.5_e3" = .error (.invalidUnderscore 3) ∧
      (LiteralError.invalidUnderscore 3).HoldsIn .decimal "1.5_e3".toList := by
  have failed : read "1.5_e3" = .error (.invalidUnderscore 3) := by decide +kernel
  refine ⟨failed, (read_error_holdsIn_iff failed).2 ?_⟩
  rintro ⟨front, letter, back, chars, -⟩
  cases chars

/-- The letter is reported as no digit of base sixteen, and it is one. -/
theorem read_letter_in_power :
    read "0x1pa" = .error (.invalidDigit 'a' .hexadecimal) ∧
      ¬ (LiteralError.invalidDigit 'a' .hexadecimal).HoldsIn .hexadecimal "0x1pa".toList := by
  refine ⟨by decide +kernel, ?_⟩
  rintro ⟨-, noDigit⟩
  cases noDigit

end Literal

end Metrology
