/-
Module: Metrology.Proofs.LiteralGrammar
Layer: Proofs
Purpose: The grammar of numeric literals, independent of the pass that reads them. A run of digits
  is `digit ('_'? digit)*`; a decimal is a whole part without a superfluous zero, an optional
  fraction and an optional power of ten; a hexadecimal has an optional power of two; octals and
  binaries are runs of digits. Beside the grammar stands what may still follow at each place in a
  literal, with the law that gives it one character at a time.
Imports: Metrology.Formula.Literal
Main exports: Digits, LiteralText, BareExponent, LiteralText.not_bareExponent, NumberPlace,
  NumberPlace.Continues, NumberPlace.Advances, NumberPlace.continues_cons
-/
import Metrology.Formula.Literal

namespace Metrology

/-! ### The grammar -/

/-- A run of digits: `digit ('_'? digit)*`. -/
inductive Digits (radix : Nat) : List Char → Prop where
  | single {c : Char} (digit : isDigitOf radix c = true) : Digits radix [c]
  | adjoined {c : Char} {cs : List Char} (digit : isDigitOf radix c = true)
      (others : Digits radix cs) : Digits radix (c :: cs)
  | separated {c : Char} {cs : List Char} (digit : isDigitOf radix c = true)
      (others : Digits radix cs) : Digits radix (c :: '_' :: cs)

/-- The whole part of a decimal: a single `0`, or a run of digits that begins with another digit. -/
inductive DecimalWhole : List Char → Prop where
  | zero : DecimalWhole ['0']
  | positive {c : Char} {cs : List Char} (first : '1' ≤ c ∧ c ≤ '9')
      (digits : Digits 10 (c :: cs)) : DecimalWhole (c :: cs)

/-- An optional fraction: `('.' digits)?`, for the bases that have one. -/
inductive FractionPart (base : Base) : List Char → Prop where
  | absent : FractionPart base []
  | present {digits : List Char} (allowed : base.hasFraction = true)
      (run : Digits base.radix digits) : FractionPart base ('.' :: digits)

/-- A power with its mark: `mark [+-]? digits`, the digits being decimal in every base. -/
inductive ExponentPart (base : Base) : List Char → Prop where
  | unsigned {mark : Char} {digits : List Char} (marks : base.isExponentMark mark = true)
      (run : Digits 10 digits) : ExponentPart base (mark :: digits)
  | signed {mark sign : Char} {digits : List Char} (marks : base.isExponentMark mark = true)
      (signs : sign = '+' ∨ sign = '-') (run : Digits 10 digits) :
      ExponentPart base (mark :: sign :: digits)

/-- What follows a whole part: an optional fraction and an optional power. -/
inductive Ending (base : Base) : List Char → Prop where
  | plain {fraction : List Char} (after : FractionPart base fraction) : Ending base fraction
  | powered {fraction exponent : List Char} (after : FractionPart base fraction)
      (power : ExponentPart base exponent) : Ending base (fraction ++ exponent)

/-- The texts of numeric literals. -/
inductive LiteralText : List Char → Prop where
  | decimal {whole ending : List Char} (digits : DecimalWhole whole)
      (after : Ending .decimal ending) : LiteralText (whole ++ ending)
  | hexadecimal {whole ending : List Char} (digits : Digits 16 whole)
      (after : Ending .hexadecimal ending) : LiteralText ('0' :: 'x' :: (whole ++ ending))
  | octal {digits : List Char} (run : Digits 8 digits) : LiteralText ('0' :: 'o' :: digits)
  | binary {digits : List Char} (run : Digits 2 digits) : LiteralText ('0' :: 'b' :: digits)

/-- A power without the number that it belongs to: no literal. -/
inductive BareExponent : List Char → Prop where
  | decimal {cs : List Char} (power : ExponentPart .decimal cs) : BareExponent cs
  | hexadecimal {cs : List Char} (power : ExponentPart .hexadecimal cs) :
      BareExponent ('0' :: 'x' :: cs)

/-! ### Digits and other characters -/

/-- The parts of a number. -/
inductive NumberPart where
  | whole
  | fraction
  | exponent
deriving DecidableEq

/-- The radix of the digits of a part. -/
def NumberPart.radix (base : Base) : NumberPart → Nat
  | .exponent => 10
  | _ => base.radix

theorem ne_of_isDigitOf {radix : Nat} {c other : Char} (digit : isDigitOf radix c = true)
    (noDigit : isDigitOf radix other = false) : c ≠ other := by
  rintro rfl
  rw [digit] at noDigit
  cases noDigit

/-- The mark of a power is no digit of any part. -/
theorem Base.isDigitOf_mark {base : Base} {c : Char} (mark : base.isExponentMark c = true)
    (part : NumberPart) : isDigitOf (part.radix base) c = false := by
  cases base with
  | binary | octal => cases mark
  | decimal | hexadecimal =>
      simp only [isExponentMark, Bool.or_eq_true, beq_iff_eq] at mark
      rcases mark with rfl | rfl <;> cases part <;> rfl

/-- A letter has the value ten or more. -/
theorem range_of_isDigitOf {c : Char} (digit : isDigitOf 10 c = true) : '0' ≤ c ∧ c ≤ '9' := by
  rcases Decidable.em ('0' ≤ c ∧ c ≤ '9') with range | outside
  · exact range
  · simp only [isDigitOf, digitValue?, outside, if_false, Option.isSome_ite] at digit
    split at digit
    · omega
    · split at digit <;> omega

theorem eq_zero_or_positive_of_isDigitOf {c : Char} (digit : isDigitOf 10 c = true) :
    c = '0' ∨ ('1' ≤ c ∧ c ≤ '9') := by
  obtain ⟨least, most⟩ := range_of_isDigitOf digit
  rcases Decidable.em (c = '0') with zero | positive
  · exact .inl zero
  · have apart : c.toNat ≠ '0'.toNat := fun same => positive (Char.toNat_inj.1 same)
    have above : '0'.toNat ≤ c.toNat := least
    have next : '0'.toNat + 1 ≤ c.toNat := by omega
    exact .inr ⟨next, most⟩

theorem Digits.head {radix : Nat} {cs : List Char} (digits : Digits radix cs) :
    ∃ c rest, cs = c :: rest ∧ isDigitOf radix c = true := by
  cases digits with
  | single digit | adjoined digit _ | separated digit _ => exact ⟨_, _, rfl, digit⟩

/-- Digits need nothing between them. -/
theorem Digits.of_isDigitOf {radix : Nat} {c : Char} {cs : List Char}
    (all : ∀ x ∈ c :: cs, isDigitOf radix x = true) : Digits radix (c :: cs) := by
  induction cs generalizing c with
  | nil => exact .single (all c List.mem_cons_self)
  | cons d cs ih =>
      obtain ⟨digit, others⟩ := List.forall_mem_cons.1 all
      exact .adjoined digit (ih others)

theorem ExponentPart.head {base : Base} {cs : List Char} (power : ExponentPart base cs) :
    ∃ mark rest, cs = mark :: rest ∧ base.isExponentMark mark = true := by
  cases power with
  | unsigned marks _ | signed marks _ _ => exact ⟨_, _, rfl, marks⟩

/-- A fraction begins with a point, a power with its mark. -/
theorem Ending.head {base : Base} {c : Char} {cs : List Char} (after : Ending base (c :: cs)) :
    c = '.' ∨ base.isExponentMark c = true := by
  generalize same : c :: cs = text at after
  cases after with
  | plain fraction =>
      cases fraction with
      | absent => cases same
      | present _ _ => exact .inl (List.cons.inj same).1
  | powered fraction power =>
      cases fraction with
      | present _ _ => exact .inl (List.cons.inj same).1
      | absent =>
          obtain ⟨mark, rest, rfl, marks⟩ := power.head
          exact .inr ((List.cons.inj same).1 ▸ marks)

/-! ### Decimals -/

theorem DecimalWhole.digits {whole : List Char} (isWhole : DecimalWhole whole) :
    Digits 10 whole := by
  cases isWhole with
  | zero => exact .single rfl
  | positive _ digits => exact digits

/-- After a leading zero only a fraction or a power goes on. -/
theorem DecimalWhole.after_zero {whole ending rest : List Char} {next : Char}
    (isWhole : DecimalWhole whole) (after : Ending .decimal ending)
    (text : whole ++ ending = '0' :: next :: rest) :
    next = '.' ∨ next = 'e' ∨ next = 'E' := by
  cases isWhole with
  | positive first _ =>
      obtain rfl := (List.cons.inj text).1
      exact absurd first.1 (by decide)
  | zero =>
      obtain rfl := (List.cons.inj text).2
      simpa [Base.isExponentMark] using after.head

theorem DecimalWhole.split {whole ending : List Char} (isWhole : DecimalWhole whole)
    (after : Ending .decimal ending) :
    Base.split (whole ++ ending) = (.decimal, whole ++ ending) := by
  generalize text : whole ++ ending = cs
  unfold Base.split
  split
  · exact absurd (isWhole.after_zero after text) (by decide)
  · exact absurd (isWhole.after_zero after text) (by decide)
  · exact absurd (isWhole.after_zero after text) (by decide)
  · rfl

theorem DecimalWhole.hasLeadingZero {whole ending : List Char} (isWhole : DecimalWhole whole)
    (after : Ending .decimal ending) : Literal.hasLeadingZero (whole ++ ending) = false := by
  generalize text : whole ++ ending = cs
  unfold Literal.hasLeadingZero
  split
  · rcases isWhole.after_zero after text with rfl | rfl | rfl <;> rfl
  · rfl

/-- A zero that is superfluous is so whatever follows. -/
theorem Literal.hasLeadingZero_of_append {front back : List Char}
    (noZero : hasLeadingZero (front ++ back) = false) : hasLeadingZero front = false := by
  unfold hasLeadingZero
  split
  · exact noZero
  · rfl

/-- Digits without a superfluous zero are the whole part of a decimal. -/
theorem Digits.decimalWhole {digits : List Char} (run : Digits 10 digits)
    (noZero : Literal.hasLeadingZero digits = false) : DecimalWhole digits := by
  obtain ⟨c, rest, rfl, digit⟩ := run.head
  rcases eq_zero_or_positive_of_isDigitOf digit with rfl | first
  · cases run with
    | single _ => exact .zero
    | adjoined _ others =>
        obtain ⟨next, more, rfl, nextDigit⟩ := others.head
        simp [Literal.hasLeadingZero, nextDigit] at noZero
    | separated _ _ => simp [Literal.hasLeadingZero] at noZero
  · exact .positive first run

/-! ### Literals and powers alone -/

/-- A number's digits do not begin with the mark of a power. -/
theorem Digits.not_exponent {base : Base} {whole ending : List Char}
    (digits : Digits base.radix whole) : ¬ ExponentPart base (whole ++ ending) := by
  obtain ⟨c, rest, rfl, digit⟩ := digits.head
  intro power
  obtain ⟨mark, others, same, marks⟩ := power.head
  obtain rfl := (List.cons.inj same).1
  exact ne_of_isDigitOf digit (Base.isDigitOf_mark marks .whole) rfl

theorem ExponentPart.ne_zero_cons {base : Base} {cs rest : List Char}
    (power : ExponentPart base cs) : cs ≠ '0' :: rest := by
  rintro rfl
  obtain ⟨mark, others, same, marks⟩ := power.head
  obtain rfl := (List.cons.inj same).1
  cases base <;> cases marks

/-- No literal is a power alone. -/
theorem LiteralText.not_bareExponent {text : List Char} (literal : LiteralText text) :
    ¬ BareExponent text := by
  intro bare
  cases bare with
  | decimal power =>
      cases literal with
      | decimal digits after => exact @Digits.not_exponent .decimal _ _ digits.digits power
      | hexadecimal _ _ | octal _ | binary _ => exact power.ne_zero_cons rfl
  | hexadecimal power =>
      generalize same : '0' :: 'x' :: _ = text at literal
      cases literal with
      | decimal digits after => exact absurd (digits.after_zero after same.symm) (by decide)
      | hexadecimal digits after =>
          obtain rfl := (List.cons.inj (List.cons.inj same).2).2
          exact @Digits.not_exponent .hexadecimal _ _ digits power
      | octal _ | binary _ => cases same

/-! ### What may follow at a place -/

/-- What may follow the digits of a part. -/
def NumberPart.Ends (base : Base) : NumberPart → List Char → Prop
  | .whole, cs => Ending base cs
  | .fraction, cs => cs = [] ∨ ExponentPart base cs
  | .exponent, cs => cs = []

/-- The places in a number: before it, after a digit or `_` of a part, and after a separator of
    parts. -/
inductive NumberPlace where
  | start
  | digit (part : NumberPart)
  | underscore (part : NumberPart)
  | period
  | mark
  | sign

/-- The part that a place stands in. -/
def NumberPlace.part : NumberPlace → NumberPart
  | start => .whole
  | digit part => part
  | underscore part => part
  | period => .fraction
  | mark => .exponent
  | sign => .exponent

/-- A run of digits, and then what may follow it. -/
def DigitsThen (radix : Nat) (follows : List Char → Prop) (cs : List Char) : Prop :=
  ∃ digits rest, cs = digits ++ rest ∧ Digits radix digits ∧ follows rest

/-- What goes on after a digit of a run. -/
def AfterDigit (radix : Nat) (follows : List Char → Prop) (cs : List Char) : Prop :=
  follows cs ∨ DigitsThen radix follows cs ∨
    ∃ rest, cs = '_' :: rest ∧ DigitsThen radix follows rest

namespace NumberPlace

/-- The digits of a place's part and what may follow them. -/
def Run (base : Base) (place : NumberPlace) : List Char → Prop :=
  DigitsThen (place.part.radix base) (place.part.Ends base)

/-- The texts that complete a number at a place; at its start also nothing, and a power alone. -/
def Continues (base : Base) : NumberPlace → List Char → Prop
  | start, cs => cs = [] ∨ Run base start cs ∨ ExponentPart base cs
  | digit part, cs => AfterDigit (part.radix base) (part.Ends base) cs
  | mark, cs => Run base mark cs ∨
      ∃ sign rest, cs = sign :: rest ∧ (sign = '+' ∨ sign = '-') ∧ Run base mark rest
  | place, cs => Run base place cs

/-- One character takes a number from one place to the next. -/
inductive Advances (base : Base) (c : Char) : NumberPlace → NumberPlace → Prop where
  | digit {place : NumberPlace} (isDigit : isDigitOf (place.part.radix base) c = true) :
      Advances base c place (.digit place.part)
  | underscore {part : NumberPart} (isUnderscore : c = '_') :
      Advances base c (.digit part) (.underscore part)
  | period (allowed : base.hasFraction = true) (isPeriod : c = '.') :
      Advances base c (.digit .whole) .period
  | mark {place : NumberPlace} (marks : base.isExponentMark c = true)
      (ready : place = .start ∨ place = .digit .whole ∨ place = .digit .fraction) :
      Advances base c place .mark
  | sign (signs : c = '+' ∨ c = '-') : Advances base c .mark .sign

end NumberPlace

section Follows

variable {radix : Nat} {follows : List Char → Prop} {c : Char} {cs : List Char}

theorem not_digitsThen_nil : ¬ DigitsThen radix follows [] := by
  rintro ⟨digits, rest, empty, run, -⟩
  obtain ⟨c, more, rfl, -⟩ := run.head
  cases empty

theorem digitsThen_cons :
    DigitsThen radix follows (c :: cs) ↔
      isDigitOf radix c = true ∧ AfterDigit radix follows cs := by
  constructor
  · rintro ⟨digits, rest, same, run, after⟩
    cases run with
    | single digit =>
        obtain ⟨rfl, rfl⟩ := List.cons.inj same
        exact ⟨digit, .inl after⟩
    | adjoined digit others =>
        obtain ⟨rfl, rfl⟩ := List.cons.inj same
        exact ⟨digit, .inr (.inl ⟨_, rest, rfl, others, after⟩)⟩
    | separated digit others =>
        obtain ⟨rfl, rfl⟩ := List.cons.inj same
        exact ⟨digit, .inr (.inr ⟨_, rfl, _, rest, rfl, others, after⟩)⟩
  · rintro ⟨digit, after | ⟨digits, rest, rfl, run, after⟩ | ⟨more, rfl, others⟩⟩
    · exact ⟨[c], cs, rfl, .single digit, after⟩
    · exact ⟨c :: digits, rest, rfl, .adjoined digit run, after⟩
    · obtain ⟨digits, rest, rfl, run, after⟩ := others
      exact ⟨c :: '_' :: digits, rest, rfl, .separated digit run, after⟩

theorem afterDigit_nil (ends : follows []) : AfterDigit radix follows [] := .inl ends

theorem afterDigit_cons :
    AfterDigit radix follows (c :: cs) ↔
      follows (c :: cs) ∨ (isDigitOf radix c = true ∧ AfterDigit radix follows cs) ∨
        (c = '_' ∧ DigitsThen radix follows cs) := by
  rw [AfterDigit, digitsThen_cons]
  refine or_congr_right (or_congr_right ⟨?_, ?_⟩)
  · rintro ⟨rest, same, after⟩
    obtain ⟨rfl, rfl⟩ := List.cons.inj same
    exact ⟨rfl, after⟩
  · rintro ⟨rfl, after⟩
    exact ⟨cs, rfl, after⟩

end Follows

namespace NumberPlace

variable {base : Base} {c : Char} {cs : List Char}

theorem run_cons {place : NumberPlace} :
    Run base place (c :: cs) ↔
      isDigitOf (place.part.radix base) c = true ∧ Continues base (.digit place.part) cs :=
  digitsThen_cons

/-- Nothing follows the digits of a power. -/
theorem run_mark : Run base .mark cs ↔ Digits 10 cs := by
  constructor
  · rintro ⟨digits, rest, rfl, run, rfl⟩
    rwa [List.append_nil]
  · intro run
    exact ⟨cs, [], (List.append_nil cs).symm, run, rfl⟩

theorem exponent_cons :
    ExponentPart base (c :: cs) ↔ base.isExponentMark c = true ∧ Continues base .mark cs := by
  constructor
  · intro power
    cases power with
    | unsigned marks run => exact ⟨marks, .inl (run_mark.2 run)⟩
    | signed marks signs run => exact ⟨marks, .inr ⟨_, _, rfl, signs, run_mark.2 run⟩⟩
  · rintro ⟨marks, run | ⟨sign, digits, rfl, signs, run⟩⟩
    · exact .unsigned marks (run_mark.1 run)
    · exact .signed marks signs (run_mark.1 run)

theorem ending_cons :
    Ending base (c :: cs) ↔
      (base.hasFraction = true ∧ c = '.' ∧ Run base .period cs) ∨ ExponentPart base (c :: cs) := by
  constructor
  · intro after
    generalize same : c :: cs = text at after
    cases after with
    | plain fraction =>
        cases fraction with
        | absent => cases same
        | present allowed run =>
            obtain ⟨rfl, rfl⟩ := List.cons.inj same
            exact .inl ⟨allowed, rfl, _, [], (List.append_nil _).symm, run, .inl rfl⟩
    | powered fraction power =>
        cases fraction with
        | absent => exact .inr power
        | present allowed run =>
            obtain ⟨rfl, rfl⟩ := List.cons.inj same
            exact .inl ⟨allowed, rfl, _, _, rfl, run, .inr power⟩
  · rintro (⟨allowed, rfl, digits, rest, rfl, run, rfl | power⟩ | power)
    · rw [List.append_nil]
      exact .plain (.present allowed run)
    · exact .powered (.present allowed run) power
    · exact .powered .absent power

/-- What follows the digits of a part begins with a point or with the mark of a power. -/
theorem ends_cons {part : NumberPart} :
    part.Ends base (c :: cs) ↔
      (part = .whole ∧ base.hasFraction = true ∧ c = '.' ∧ Run base .period cs) ∨
        (part ≠ .exponent ∧ base.isExponentMark c = true ∧ Continues base .mark cs) := by
  rw [← exponent_cons]
  cases part with
  | whole => simp [NumberPart.Ends, ending_cons]
  | fraction => simp [NumberPart.Ends]
  | exponent => simp [NumberPart.Ends]

/-- A number ends at its start and after a digit. -/
theorem continues_nil {place : NumberPlace} :
    Continues base place [] ↔ place = .start ∨ ∃ part, place = .digit part := by
  have noPower : ¬ ExponentPart base [] := by
    intro power
    obtain ⟨mark, rest, same, -⟩ := power.head
    cases same
  cases place with
  | start => simp [Continues]
  | digit part =>
      have ends : part.Ends base [] := by
        cases part with
        | whole => exact .plain .absent
        | fraction => exact .inl rfl
        | exponent => rfl
      simp [Continues, afterDigit_nil ends]
  | underscore _ | period | mark | sign => simp [Continues, Run, not_digitsThen_nil]

/-- The law of the continuations: the first character advances, the others go on from there. -/
theorem continues_cons {place : NumberPlace} :
    Continues base place (c :: cs) ↔
      ∃ next, Advances base c place next ∧ Continues base next cs := by
  constructor
  · have ofRun : Run base place (c :: cs) →
        ∃ next, Advances base c place next ∧ Continues base next cs := by
      intro run
      obtain ⟨digit, after⟩ := run_cons.1 run
      exact ⟨_, .digit digit, after⟩
    cases place with
    | start =>
        rintro (empty | run | power)
        · cases empty
        · exact ofRun run
        · obtain ⟨marks, after⟩ := exponent_cons.1 power
          exact ⟨.mark, .mark marks (.inl rfl), after⟩
    | digit part =>
        intro after
        rcases afterDigit_cons.1 after with ends | ⟨digit, after⟩ | ⟨isUnderscore, run⟩
        · rcases ends_cons.1 ends with ⟨rfl, allowed, isPeriod, run⟩ | ⟨open_, marks, after⟩
          · exact ⟨.period, .period allowed isPeriod, run⟩
          · refine ⟨.mark, .mark marks ?_, after⟩
            cases part with
            | whole => exact .inr (.inl rfl)
            | fraction => exact .inr (.inr rfl)
            | exponent => exact absurd rfl open_
        · exact ⟨_, @Advances.digit _ _ (.digit part) digit, after⟩
        · exact ⟨_, .underscore isUnderscore, run⟩
    | mark =>
        rintro (run | ⟨sign, rest, same, signs, run⟩)
        · exact ofRun run
        · obtain ⟨rfl, rfl⟩ := List.cons.inj same
          exact ⟨.sign, .sign signs, run⟩
    | underscore _ | period | sign => exact ofRun
  · rintro ⟨next, advances, after⟩
    cases advances with
    | digit digit =>
        have run : Run base place (c :: cs) := run_cons.2 ⟨digit, after⟩
        cases place with
        | start => exact .inr (.inl run)
        | digit part => exact afterDigit_cons.2 (.inr (.inl ⟨digit, after⟩))
        | mark => exact .inl run
        | underscore _ | period | sign => exact run
    | underscore isUnderscore => exact afterDigit_cons.2 (.inr (.inr ⟨isUnderscore, after⟩))
    | period allowed isPeriod =>
        exact .inl (ends_cons.2 (.inl ⟨rfl, allowed, isPeriod, after⟩))
    | mark marks ready =>
        rcases ready with rfl | rfl | rfl
        · exact .inr (.inr (exponent_cons.2 ⟨marks, after⟩))
        · exact .inl (ends_cons.2 (.inr ⟨by decide, marks, after⟩))
        · exact .inl (ends_cons.2 (.inr ⟨by decide, marks, after⟩))
    | sign signs => exact .inr ⟨c, cs, rfl, signs, after⟩

end NumberPlace

end Metrology
