/-
Module: Metrology.Formula.Literal
Layer: Formulas
Purpose: Numeric literals. A literal is a decimal, hexadecimal, octal or binary integer, a decimal
  fraction with a power of ten, or a hexadecimal fraction with a power of two; `_` may stand between
  two digits. One pass over the characters finds the first defect; a text without defects is then
  evaluated.
Imports: Metrology.Decimal.Reader
Main exports: Base, Literal, LiteralError, Scan, Literal.read
-/
import Metrology.Decimal.Reader

namespace Metrology

/-- The bases that integer literals can be written in. -/
inductive Base where
  | binary
  | octal
  | decimal
  | hexadecimal
deriving DecidableEq, Repr, Inhabited

namespace Base

def radix : Base → Nat
  | binary => 2
  | octal => 8
  | decimal => 10
  | hexadecimal => 16

/-- The letters that separate a number of this base from its exponent. -/
def isExponentMark : Base → Char → Bool
  | decimal, c => c == 'e' || c == 'E'
  | hexadecimal, c => c == 'p' || c == 'P'
  | _, _ => false

theorem radix_pos (base : Base) : 0 < base.radix := by cases base <;> decide

/-- Only decimals and hexadecimals have a fraction. -/
def hasFraction : Base → Bool
  | decimal => true
  | hexadecimal => true
  | _ => false

/-- The base that a literal announces, and the characters after the announcement. -/
def split : List Char → Base × List Char
  | '0' :: 'x' :: rest => (hexadecimal, rest)
  | '0' :: 'o' :: rest => (octal, rest)
  | '0' :: 'b' :: rest => (binary, rest)
  | rest => (decimal, rest)

/-- How many bytes the announcement of a base takes. -/
def announcedLength : Base → Nat
  | decimal => 0
  | _ => 2

end Base

/-- The number that a literal denotes. -/
inductive Literal where
  | whole (n : Nat)
  | real (x : Double)
deriving DecidableEq

/-- The first defect of a malformed literal. -/
inductive LiteralError where
  | leadingZero
  | invalidUnderscore (offset : Nat)
  | duplicatePeriod
  | periodAfterExponent
  | trailingPeriod
  | duplicateExponent
  | missingExponentDigits
  | invalidDigit (digit : Char) (base : Base)
  | missingDigits
  | overflow
deriving DecidableEq, Repr, Inhabited

def LiteralError.message : LiteralError → String
  | leadingZero => "leading zero in a decimal literal"
  | invalidUnderscore offset =>
    String.join ["digit separator `_` at offset ", toString offset, " must sit between two digits"]
  | duplicatePeriod => "duplicate decimal point"
  | periodAfterExponent => "decimal point after the exponent"
  | trailingPeriod => "decimal point must be followed by a digit"
  | duplicateExponent => "duplicate exponent marker"
  | missingExponentDigits => "exponent has no digits"
  | invalidDigit digit base =>
    String.join ["invalid digit `", String.ofList [digit], "` for base ", toString base.radix]
  | missingDigits => "base prefix must be followed by digits"
  | overflow => "magnitude is not representable"

/-! ### One pass for defects -/

/-- The kind of the character just read. -/
inductive Last where
  | start
  | digit
  | underscore
  | period
  | exponent
  | sign
deriving DecidableEq, Repr, Inhabited

/-- What the pass remembers of the characters behind it. -/
structure Scan where
  last : Last
  lastOffset : Nat
  seenPeriod : Bool
  seenExponent : Bool
deriving DecidableEq, Repr, Inhabited

namespace Scan

/-- Nothing read yet; the digits begin at `offset`. -/
def initial (offset : Nat) : Scan := ⟨.start, offset, false, false⟩

/-- What comes after a character that is none of the separators: a digit, or a defect. -/
def readDigit (base : Base) (s : Scan) (c : Char) : Except LiteralError Scan :=
  if isDigitOf (if s.seenExponent then 10 else base.radix) c then .ok { s with last := .digit }
  else .error (.invalidDigit c base)

def readUnderscore (s : Scan) (offset : Nat) : Except LiteralError Scan :=
  if s.last = .digit then .ok { s with last := .underscore } else .error (.invalidUnderscore offset)

def readPeriod (base : Base) (s : Scan) : Except LiteralError Scan :=
  if !base.hasFraction then .error (.invalidDigit '.' base)
  else if s.seenExponent then .error .periodAfterExponent
  else if s.seenPeriod then .error .duplicatePeriod
  else if s.last = .underscore then .error (.invalidUnderscore s.lastOffset)
  else if s.last = .start then .error .missingDigits
  else .ok { s with last := .period, seenPeriod := true }

def readExponentMark (s : Scan) : Except LiteralError Scan :=
  if s.seenExponent then .error .duplicateExponent
  else if s.last = .underscore then .error (.invalidUnderscore s.lastOffset)
  else .ok { s with last := .exponent, seenExponent := true }

/-- The effect of one character, apart from its place being noted. A point demands a digit next, but
    an underscore there is reported as such. -/
def read (base : Base) (s : Scan) (offset : Nat) (c : Char) : Except LiteralError Scan :=
  if s.last = .period ∧ c ≠ '_' ∧ !isDigitOf base.radix c then .error .trailingPeriod
  else if c = '_' then s.readUnderscore offset
  else if c = '.' then s.readPeriod base
  else if base.isExponentMark c then s.readExponentMark
  else if (c = '+' ∨ c = '-') ∧ s.last = .exponent then .ok { s with last := .sign }
  else s.readDigit base c

/-- The effect of one character at a byte offset. -/
def step (base : Base) (s : Scan) (offset : Nat) (c : Char) : Except LiteralError Scan :=
  (s.read base offset c).map fun next => { next with lastOffset := offset }

/-- The effect of a sequence of characters that starts at a byte offset. -/
def run (base : Base) : Scan → Nat → List Char → Except LiteralError Scan
  | s, _, [] => .ok s
  | s, offset, c :: cs =>
    match s.step base offset c with
    | .ok next => run base next (offset + c.utf8Size) cs
    | .error defect => .error defect

/-- The defect of a text that ends here, if any. -/
def endDefect? (s : Scan) : Option LiteralError :=
  match s.last with
  | .underscore => some (.invalidUnderscore s.lastOffset)
  | .period => some .trailingPeriod
  | .exponent => some .missingExponentDigits
  | .sign => some .missingExponentDigits
  | .start => none
  | .digit => none

end Scan

namespace Literal

/-! ### Values -/

/-- Whole literals are below this limit. -/
def wholeLimit : Nat := 2 ^ 128

/-- The number, if a whole literal can have it for its value. -/
def inLimit? (n : Nat) : Option Nat := if n < wholeLimit then some n else none

/-- A further digit of a whole literal: the number before it is multiplied by the radix, and the
    digit is added, both within the limit. -/
def appendDigit? (radix : Nat) (value? : Option Nat) (digit : Nat) : Option Nat :=
  (value?.bind fun value => inLimit? (value * radix)).bind fun scaled => inLimit? (scaled + digit)

/-- The number that the digits of a whole literal denote, taken in one at a time; once it is out of
    range it stays so. -/
def wholeValue? (radix : Nat) (digits : List Nat) : Option Nat :=
  digits.foldl (appendDigit? radix) (some 0)

/-- A digit does not lead back below the limit, so it is enough to look at the number it makes. -/
theorem appendDigit?_inLimit? {radix : Nat} (pos : 0 < radix) (value digit : Nat) :
    appendDigit? radix (inLimit? value) digit = inLimit? (value * radix + digit) := by
  have grows : value ≤ value * radix := Nat.le_mul_of_pos_right value pos
  simp only [appendDigit?, inLimit?]
  by_cases below : value * radix < wholeLimit
  · have start : value < wholeLimit := Nat.lt_of_le_of_lt grows below
    simp [start, below]
  · have above : ¬ value * radix + digit < wholeLimit := fun less =>
      below (Nat.lt_of_le_of_lt (Nat.le_add_right _ digit) less)
    by_cases start : value < wholeLimit <;> simp [start, below, above]

/-- Checked digit by digit, the number is within the limit exactly if it is in the end. -/
theorem wholeValue?_eq {radix : Nat} (pos : 0 < radix) (digits : List Nat) :
    wholeValue? radix digits = inLimit? (positional radix digits) := by
  have taken : ∀ value, digits.foldl (appendDigit? radix) (inLimit? value) =
      inLimit? (digits.foldl (fun value digit => value * radix + digit) value) := by
    induction digits with
    | nil => exact fun _ => rfl
    | cons digit digits ih =>
        intro value
        rw [List.foldl_cons, List.foldl_cons, appendDigit?_inLimit? pos, ih]
  exact taken 0

/-- The literal as a double. -/
def value : Literal → Double
  | whole n => .ofNat n
  | real x => x

/-- A finite double is a literal's value; anything else is out of range. -/
def ofDouble (x : Double) : Except LiteralError Literal :=
  if x.isFinite then .ok (.real x) else .error .overflow

/-- A decimal literal with a fraction or an exponent. -/
def ofDecimalText (digits : List Char) : Except LiteralError Literal :=
  match Decimal.read? digits with
  | some d => ofDouble (d.toBinary .double false)
  | none => .error .overflow

/-- The value of hexadecimal digits, taken in one at a time in double precision. -/
def hexMantissa (digits : List Char) : Double :=
  (digitValues 16 digits).foldl (fun value digit => value * .ofNat 16 + .ofNat digit) (.zero false)

/-- Exponents of two lie in the range of a signed 32-bit integer. -/
def exponentInRange (n : Int) : Bool := decide (-(2 ^ 31) ≤ n ∧ n < 2 ^ 31)

/-- A hexadecimal literal with a fraction or an exponent: every digit after the point takes four off
    the exponent of two. -/
def ofHexText (digits : List Char) : Except LiteralError Literal :=
  let isMark := Base.hexadecimal.isExponentMark
  let mantissa := digits.takeWhile fun c => !isMark c
  let exponentText := (digits.dropWhile fun c => !isMark c).drop 1
  let whole := mantissa.takeWhile (· != '.')
  let fraction := (mantissa.dropWhile (· != '.')).drop 1
  let exponent? := if exponentText.isEmpty then some 0 else readInt? exponentText
  match exponent? with
  | some exponent =>
    let power := exponent - 4 * (digitValues 16 fraction).length
    if exponentInRange power then
      ofDouble (hexMantissa (whole ++ fraction) * (Binary.ofNat 2).power power)
    else .error .overflow
  | none => .error .overflow

/-- The value of digits without defects. -/
def evaluate (base : Base) (s : Scan) (digits : List Char) : Except LiteralError Literal :=
  if !s.seenPeriod && !s.seenExponent then
    match wholeValue? base.radix (digitValues base.radix digits) with
    | some n => .ok (.whole n)
    | none => .error .overflow
  else
    let plain := digits.filter (· != '_')
    if base = .hexadecimal then ofHexText plain else ofDecimalText plain

/-- Without a fraction or a power the value is the number that the digits denote. -/
theorem evaluate_whole {base : Base} {s : Scan} (digits : List Char)
    (whole : s.seenPeriod = false ∧ s.seenExponent = false) :
    evaluate base s digits =
      if positional base.radix (digitValues base.radix digits) < wholeLimit then
        .ok (.whole (positional base.radix (digitValues base.radix digits)))
      else .error .overflow := by
  simp only [evaluate, whole.1, whole.2, Bool.not_false, Bool.and_self, if_true,
    wholeValue?_eq base.radix_pos, inLimit?]
  by_cases below : positional base.radix (digitValues base.radix digits) < wholeLimit
  · rw [if_pos below, if_pos below]
  · rw [if_neg below, if_neg below]

/-- Whether a decimal text goes on with a digit or `_` after a zero. -/
def hasLeadingZero : List Char → Bool
  | '0' :: next :: _ => isDigitOf 10 next || next == '_'
  | _ => false

/-- The literal that a text denotes, or its first defect. -/
def readChars (text : List Char) : Except LiteralError Literal :=
  let (base, digits) := Base.split text
  if digits.isEmpty then .error .missingDigits
  else if base = .decimal ∧ hasLeadingZero digits then .error .leadingZero
  else match (Scan.initial base.announcedLength).run base base.announcedLength digits with
    | .error defect => .error defect
    | .ok s => match s.endDefect? with
      | some defect => .error defect
      | none => evaluate base s digits

/-- The literal that a text denotes, or its first defect. -/
def read (text : String) : Except LiteralError Literal := readChars text.toList

example : (read "0b1_01").toOption = some (.whole 5) := by decide +kernel
example : (read "1__0").toOption = none := by decide +kernel

end Literal

end Metrology
