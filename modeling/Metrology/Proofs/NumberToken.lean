/-
Module: Metrology.Proofs.NumberToken
Layer: Proofs
Purpose: A literal and the number token that is lexed from it end at the same place. With each step
  from one place in a number to the next the lexer's scan goes on: it takes the same letters for the
  marks of a power as the grammar, and a sign of a power stands right behind its mark. A number does
  not end with a mark. So a literal is lexed whole, and no sign behind it is taken into its token.
Imports: Metrology.Proofs.LexingRun, Metrology.Proofs.LiteralValue
Main exports: NumberPlace.Advances.goesOn, NumberPlace.Continues.scanLength,
  Literal.Sound.exists_lexeme_decimal, Literal.Sound.exists_lexeme_announced,
  Formula.Token.lex_literal_append
-/
import Metrology.Proofs.LexingRun
import Metrology.Proofs.LiteralValue

namespace Metrology

open Formula (Token)
open Formula.Token (announcesHex isMark isNumberChar isSign lexeme?)

/-! ### The scan of a number -/

/-- A character that has a value as a digit is a letter or a digit. -/
theorem isNumberChar_of_isDigitOf {radix : Nat} {c : Char} (digit : isDigitOf radix c = true) :
    isNumberChar c = true := by
  simp only [isNumberChar, Token.isLetter, Token.isDigit, Bool.or_eq_true, Bool.and_eq_true,
    decide_eq_true_eq]
  simp only [isDigitOf, digitValue?, Option.isSome_ite] at digit
  split_ifs at digit with decimal lower upper
  · exact .inl (.inl (.inr decimal))
  · exact .inl (.inl (.inl (.inl lower)))
  · exact .inl (.inl (.inl (.inr upper)))
  · exact absurd digit (Nat.lt_irrefl radix)

section Scan

variable {base : Base} {c last : Char} {cs : List Char} {place after : NumberPlace}

/-- The letters behind which the lexer takes in a sign, in numbers of the base. -/
def Base.hasMark (base : Base) (c : Char) : Bool := isMark (decide (base = .hexadecimal)) c

theorem Base.hasMark_of_isExponentMark (marks : base.isExponentMark c = true) :
    base.hasMark c = true := by
  cases base with
  | binary | octal => cases marks
  | decimal | hexadecimal => exact marks

/-- The letters that the lexer takes for marks are no digits. -/
theorem Base.hasMark_of_isDigitOf {part : NumberPart}
    (digit : isDigitOf (part.radix base) c = true) : base.hasMark c = false := by
  rw [Bool.eq_false_iff]
  intro marks
  apply ne_of_isDigitOf digit _ rfl
  cases base <;>
    simp only [hasMark, isMark, reduceCtorEq, decide_false, decide_true, Bool.false_eq_true,
      if_false, if_true, Bool.or_eq_true, beq_iff_eq] at marks <;>
    rcases marks with rfl | rfl <;> cases part <;> rfl

/-- The scan of the lexer goes on with each step of a number, and is behind a mark when the number
    is. -/
theorem NumberPlace.Advances.goesOn (advances : NumberPlace.Advances base c place after)
    (marked : base.hasMark last = true ↔ place = .mark) :
    Token.goesOn (decide (base = .hexadecimal)) .number last c = true ∧
      (base.hasMark c = true ↔ after = .mark) := by
  have taken (number : isNumberChar c = true) :
      Token.goesOn (decide (base = .hexadecimal)) .number last c = true :=
    Bool.or_eq_true_iff.2 (.inl number)
  cases advances with
  | digit digit =>
      refine ⟨taken (isNumberChar_of_isDigitOf digit), ?_⟩
      simp [Base.hasMark_of_isDigitOf digit]
  | underscore isUnderscore | period _ isUnderscore =>
      subst isUnderscore
      exact ⟨taken rfl, by cases base <;> simp [Base.hasMark, isMark]⟩
  | mark marks _ =>
      refine ⟨taken ?_, by simp [Base.hasMark_of_isExponentMark marks]⟩
      cases base with
      | binary | octal => cases marks
      | decimal | hexadecimal =>
          simp only [Base.isExponentMark, Bool.or_eq_true, beq_iff_eq] at marks
          rcases marks with rfl | rfl <;> rfl
  | sign signs =>
      have behindMark := marked.2 rfl
      rw [Base.hasMark] at behindMark
      refine ⟨?_, ?_⟩
      · rcases signs with rfl | rfl <;> simp [Token.goesOn, isSign, behindMark]
      · rcases signs with rfl | rfl <;> cases base <;> simp [Base.hasMark, isMark]

/-- The scan takes in all of a number, and the number does not end with a mark. -/
theorem NumberPlace.Continues.scanLength (complete : place.Continues base cs)
    (marked : base.hasMark last = true ↔ place = .mark) :
    Token.scanLength (Token.goesOn (decide (base = .hexadecimal)) .number) last cs = cs.length ∧
      base.hasMark (cs.getLastD last) = false := by
  induction cs generalizing place last with
  | nil =>
      refine ⟨rfl, ?_⟩
      rw [Bool.eq_false_iff, List.getLastD_nil, Ne, marked]
      rintro rfl
      rcases NumberPlace.continues_nil.1 complete with start | ⟨part, digit⟩
      · cases start
      · cases digit
  | cons c cs ih =>
      obtain ⟨after, advances, others⟩ := NumberPlace.continues_cons.1 complete
      obtain ⟨goes, marks⟩ := advances.goesOn marked
      obtain ⟨length, ends⟩ := ih others marks
      rw [List.getLastD_cons]
      exact ⟨by rw [Token.scanLength, goes, if_pos rfl, length, List.length_cons], ends⟩

end Scan

/-! ### Literals as lexemes -/

namespace Literal

variable {text : String} {base : Base} {digits : List Char} {literal : Literal}

/-- A power of ten alone has no value. -/
theorem ofDecimalText_of_exponentPart {cs : List Char} (power : ExponentPart .decimal cs) :
    ofDecimalText (plainChars cs) = .error .overflow := by
  obtain ⟨mark, rest, rfl, marks⟩ := power.head
  rw [plainChars_cons (Scan.ne_of_isExponentMark marks).1]
  simp only [Base.isExponentMark, Bool.or_eq_true, beq_iff_eq] at marks
  rcases marks with rfl | rfl <;> rfl

/-- A decimal literal with a value begins with a digit. -/
theorem Sound.exists_digit (h : Sound text .decimal digits) (accepted : read text = .ok literal) :
    ∃ c rest, digits = c :: rest ∧ isDigitOf 10 c = true := by
  rcases h.complete with empty | ⟨whole, rest, rfl, run, -⟩ | power
  · exact absurd empty h.nonempty
  · obtain ⟨c, more, rfl, digit⟩ := run.head
    exact ⟨c, more ++ rest, rfl, digit⟩
  · obtain ⟨mark, rest, rfl, marks⟩ := power.head
    have separated : ∃ c ∈ mark :: rest, ¬ Base.decimal.Inner c :=
      ⟨mark, List.mem_cons_self, fun inner => by rw [inner.2] at marks; cases marks⟩
    rw [h.read_real separated, if_neg (by decide), ofDecimalText_of_exponentPart power] at accepted
    cases accepted

/-- The lexeme of a number is what the scan takes in. -/
theorem lexeme?_number {c : Char} {more : List Char} (first : Token.isDigit c = true)
    (hex : announcesHex c more = decide (base = .hexadecimal))
    (scanned : Token.scanLength (Token.goesOn (decide (base = .hexadecimal)) .number) c more =
      more.length) : lexeme? c more = some (.number, more.length) := by
  rw [Token.lexeme?_eq, Token.kindOf?_eq_number_iff.2 first, Option.map_some, hex, scanned]

/-- An accepted decimal is a number lexeme that does not end with a mark. -/
theorem Sound.exists_lexeme_decimal (h : Sound text .decimal digits)
    (accepted : read text = .ok literal) :
    ∃ c more, text.toList = c :: more ∧ lexeme? c more = some (.number, more.length) ∧
      isMark (announcesHex c more) (more.getLastD c) = false := by
  have chars : text.toList = digits := Base.eq_of_split h.announced
  obtain ⟨c, rest, rfl, digit⟩ := h.exists_digit accepted
  have first : Token.isDigit c = true := by
    simpa [Token.isDigit] using range_of_isDigitOf digit
  have hex : announcesHex c rest = false := by
    rw [Bool.eq_false_iff]
    intro hex
    simp only [announcesHex, Bool.and_eq_true, beq_iff_eq, List.head?_eq_some_iff] at hex
    obtain ⟨rfl, more, rfl⟩ := hex
    have split := h.announced
    rw [chars] at split
    cases split
  have inWhole : (NumberPlace.digit .whole).Continues .decimal rest := by
    obtain ⟨after, advances, others⟩ := NumberPlace.continues_cons.1 h.complete
    cases advances with
    | digit _ => exact others
    | mark marks _ => exact absurd rfl (ne_of_isDigitOf digit (Base.isDigitOf_mark marks .whole))
  have noMark : Base.decimal.hasMark c = false := @Base.hasMark_of_isDigitOf _ _ .whole digit
  have marked : Base.decimal.hasMark c = true ↔ NumberPlace.digit .whole = .mark := by
    simp [noMark]
  obtain ⟨scanned, ends⟩ := inWhole.scanLength marked
  refine ⟨c, rest, chars, @lexeme?_number .decimal _ _ first hex scanned, ?_⟩
  rw [hex]
  exact ends

/-- In the other bases the announcement is part of the lexeme. -/
theorem Sound.exists_lexeme_announced (h : Sound text base digits) (other : base ≠ .decimal) :
    ∃ c more, text.toList = c :: more ∧ lexeme? c more = some (.number, more.length) ∧
      isMark (announcesHex c more) (more.getLastD c) = false := by
  obtain ⟨x, announcement, hex, noMark, taken⟩ : ∃ x, base.announcement = ['0', x] ∧
      announcesHex '0' (x :: digits) = decide (base = .hexadecimal) ∧
      base.hasMark x = false ∧ isNumberChar x = true := by
    cases base with
    | decimal => exact absurd rfl other
    | hexadecimal | octal | binary => exact ⟨_, rfl, rfl, rfl, rfl⟩
  have chars : text.toList = '0' :: x :: digits := by
    rw [Base.eq_of_split h.announced, announcement]
    rfl
  have marked : base.hasMark x = true ↔ NumberPlace.start = .mark := by simp [noMark]
  obtain ⟨scanned, ends⟩ := h.complete.scanLength marked
  refine ⟨'0', x :: digits, chars, lexeme?_number rfl hex ?_, ?_⟩
  · simp [Token.scanLength, Token.goesOn, taken, scanned]
  · rw [hex, List.getLastD_cons]
    exact ends

end Literal

namespace Formula.Token

/-- A literal before a character that no number contains is one token, also before a sign, and the
    tokens behind it are those of what follows. -/
theorem lex_literal_append {text rest : String} {literal : Literal} {tokens : List Token}
    (accepted : Literal.read text = .ok literal) (lexed : lex rest = .ok tokens)
    (apart : ∀ c ∈ rest.toList.head?, isLetter c = false ∧ isDigit c = false ∧ c ≠ '_' ∧ c ≠ '.') :
    lex (text ++ rest) = .ok (⟨.number, ⟨0, byteLength text.toList⟩, text⟩ ::
      tokens.map (mapOffsets (byteLength text.toList + ·))) := by
  obtain ⟨base, digits, sound⟩ := Literal.Taken.sound (.inl ⟨literal, accepted⟩)
  obtain ⟨c, more, chars, alone, noMark⟩ : ∃ c more, text.toList = c :: more ∧
      lexeme? c more = some (.number, more.length) ∧
      isMark (announcesHex c more) (more.getLastD c) = false := by
    rcases Decidable.em (base = .decimal) with rfl | other
    · exact sound.exists_lexeme_decimal accepted
    · exact sound.exists_lexeme_announced other
  have found : lexeme? c (more ++ rest.toList) = some (.number, more.length) := by
    refine lexeme?_append_iff.2 ⟨alone, fun d mem => ?_⟩
    have noNumber : isNumberChar d = false := by
      obtain ⟨letter, digit, underscore, point⟩ := apart d mem
      simp [isNumberChar, letter, digit, underscore, point]
    rw [goesOn, noNumber, noMark, Bool.and_false, Bool.or_false]
  have visible : isBlank c = false := by
    obtain ⟨_, first, same⟩ := Option.map_eq_some_iff.1 (lexeme?_eq c more ▸ alone)
    obtain ⟨rfl, -⟩ := Prod.mk.inj same
    exact isBlank_of_isNumberChar (isNumberChar_of_isDigit (kindOf?_eq_number_iff.1 first))
  have moved : Scans (byteLength text.toList) rest.toList
      (tokens.map (mapOffsets (byteLength text.toList + ·))) :=
    @Scans.mapOffsets _ _ _ (byteLength text.toList + ·) (scans_iff.2 lexed) fun n => by
      rw [Nat.zero_add, Nat.add_zero]
  rw [lex, String.toList_append, chars, lexFrom_lexeme visible found, Nat.zero_add, ← chars,
    moved.lexFrom_eq, String.ofList_toList]
  rfl

/-- In a hexadecimal `e` is a digit, and the sign behind it is an operator. -/
theorem lex_literal_append_difference :
    Literal.read "0x1e" = .ok (.whole 30) ∧
      lex "-3" = .ok [⟨.minus, ⟨0, 1⟩, "-"⟩, ⟨.number, ⟨1, 2⟩, "3"⟩, ⟨.finish, .point 2, ""⟩] ∧
      lex "0x1e-3" = .ok [⟨.number, ⟨0, 4⟩, "0x1e"⟩, ⟨.minus, ⟨4, 5⟩, "-"⟩,
        ⟨.number, ⟨5, 6⟩, "3"⟩, ⟨.finish, .point 6, ""⟩] := by
  have accepted : Literal.read "0x1e" = .ok (.whole 30) := by decide +kernel
  have lexed : lex "-3" = .ok [⟨.minus, ⟨0, 1⟩, "-"⟩, ⟨.number, ⟨1, 2⟩, "3"⟩,
      ⟨.finish, .point 2, ""⟩] := by
    decide +kernel
  refine ⟨accepted, lexed, lex_literal_append accepted lexed fun c mem => ?_⟩
  obtain rfl : '-' = c := Option.some.inj mem
  decide

end Formula.Token

end Metrology
