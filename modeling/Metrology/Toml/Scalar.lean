/-
Module: Metrology.Toml.Scalar
Layer: Documents
Purpose: The values of a TOML document that hold no other values: strings in their four quotings,
  integers in four bases, floats, booleans, and dates and times.
Imports: Metrology.Toml.Value, Metrology.Decimal.Reader, Metrology.Reading
Main exports: Toml.string?, Toml.scalar?
-/
import Metrology.Toml.Value
import Metrology.Decimal.Reader
import Metrology.Reading

namespace Metrology.Toml

/-! ### Character classes -/

def isBlank (c : Char) : Bool := c == ' ' || c == '\t'

/-- Characters that need no escape: everything but control characters, of which a tab is fine. -/
def isPlain (c : Char) : Bool := c == '\t' || (32 ≤ c.toNat && c.toNat != 127)

def skipBlanks (cs : List Char) : List Char := cs.dropWhile isBlank

/-- A line end at the front: a line feed, with or without a carriage return. -/
def afterLineEnd? : List Char → Option (List Char)
  | '\n' :: rest => some rest
  | '\r' :: '\n' :: rest => some rest
  | _ => none

/-! ### Strings -/

/-- The apostrophe. -/
def apostrophe : Char := '\x27'

/-- The character of an escape, after its backslash. -/
def escape? : List Char → Option (Char × List Char)
  | 'b' :: rest => some ('\x08', rest)
  | 't' :: rest => some ('\t', rest)
  | 'n' :: rest => some ('\n', rest)
  | 'f' :: rest => some ('\x0c', rest)
  | 'r' :: rest => some ('\r', rest)
  | '"' :: rest => some ('"', rest)
  | '\\' :: rest => some ('\\', rest)
  | 'u' :: rest => scalarValue? 4 rest
  | 'U' :: rest => scalarValue? 8 rest
  | _ => none
where
  /-- The character whose code has the given number of hexadecimal digits. -/
  scalarValue? (count : Nat) (cs : List Char) : Option (Char × List Char) :=
    let digits := cs.take count
    let code := positional 16 (digitValues 16 digits)
    if digits.length = count ∧ digits.all (isDigitOf 16) ∧ code.isValidChar then
      some (Char.ofNat code, cs.drop count)
    else none

/-- Drops blanks and line ends, at least one line end, after a backslash that ends a line. -/
def afterContinuation? (cs : List Char) : Option (List Char) :=
  (afterLineEnd? (skipBlanks cs)).map dropSpace
where
  dropSpace : List Char → List Char
    | ' ' :: rest => dropSpace rest
    | '\t' :: rest => dropSpace rest
    | '\n' :: rest => dropSpace rest
    | '\r' :: '\n' :: rest => dropSpace rest
    | cs => cs

/-- One character of a string: itself, or what an escape stands for. -/
def stringChar? (escapes : Bool) : List Char → Option (Char × List Char)
  | [] => none
  | c :: rest =>
    if escapes && c == '\\' then escape? rest
    else if isPlain c then some (c, rest) else none

/-- The text up to the closing quote on the same line. -/
def lineString? (quote : Char) (escapes : Bool) (cs : List Char) : Option (List Char × List Char) :=
  if cs.head? = some quote then some ([], cs.tail)
  else match stringChar? escapes cs with
    | none => none
    | some (c, rest) =>
      if rest.length < cs.length then
        (lineString? quote escapes rest).map fun (text, left) => (c :: text, left)
      else none
termination_by cs.length

/-- The text up to three closing quotes, over any number of lines. One or two quotes more before the
    closing ones belong to the text; every line end is a line feed. -/
def blockString? (quote : Char) (escapes : Bool) (cs : List Char) :
    Option (List Char × List Char) :=
  let quotes := (cs.takeWhile (· == quote)).length
  if 3 ≤ quotes then
    let extra := min (quotes - 3) 2
    some (List.replicate extra quote, cs.drop (extra + 3))
  else
    let continued := if escapes && cs.head? == some '\\' then afterContinuation? cs.tail else none
    let step : Option (List Char × List Char) := match continued with
      | some rest => some ([], rest)
      | none => match afterLineEnd? cs with
        | some rest => some (['\n'], rest)
        | none => (stringChar? escapes cs).map fun (c, rest) => ([c], rest)
    match step with
    | none => none
    | some (front, rest) =>
      if rest.length < cs.length then
        (blockString? quote escapes rest).map fun (text, left) => (front ++ text, left)
      else none
termination_by cs.length

/-- A string on one line. -/
def simpleString? : List Char → Option (String × List Char)
  | c :: rest =>
    if c = '"' then (lineString? c true rest).map fun (text, left) => (String.ofList text, left)
    else if c = apostrophe then
      (lineString? c false rest).map fun (text, left) => (String.ofList text, left)
    else none
  | [] => none

/-- A string in any quoting. A line end right after three opening quotes is dropped. -/
def string? (cs : List Char) : Option (String × List Char) :=
  match cs with
  | a :: b :: c :: rest =>
    if (a = '"' ∨ a = apostrophe) ∧ b = a ∧ c = a then
      let body := (afterLineEnd? rest).getD rest
      (blockString? a (a == '"') body).map fun (text, left) => (String.ofList text, left)
    else simpleString? cs
  | _ => simpleString? cs

/-! ### Numbers -/

/-- Digits of a base, with single underscores between digits; the digits without the underscores. -/
def separatedDigits? (base : Nat) (cs : List Char) : Option (List Char) :=
  go true cs
where
  /-- `fresh` asks for a digit next: at the start and after an underscore. -/
  go (fresh : Bool) : List Char → Option (List Char)
    | [] => if fresh then none else some []
    | c :: rest =>
      if isDigitOf base c then (go false rest).map (c :: ·)
      else if c = '_' ∧ !fresh then go true rest
      else none

/-- Decimal digits without a redundant leading zero. -/
def wholeDigits? (cs : List Char) : Option (List Char) :=
  match cs with
  | '0' :: _ :: _ => none
  | _ => separatedDigits? 10 cs

/-- Integers fit 64 bits with a sign. -/
def integer? (n : Int) : Option Toml :=
  if -(2 ^ 63) ≤ n ∧ n < 2 ^ 63 then some (.integer n) else none

/-- A sign, if there is one, and the rest. -/
def splitSign : List Char → Option Bool × List Char
  | '+' :: rest => (some false, rest)
  | '-' :: rest => (some true, rest)
  | rest => (none, rest)

/-- An unsigned integer in another base than ten. -/
def baseInteger? (base : Nat) (cs : List Char) : Option Toml := do
  let digits ← separatedDigits? base cs
  integer? (positional base (digitValues base digits))

/-- A decimal integer or float without its sign. Above the greatest double there is no float, and
    below the least one it is negative infinity. -/
def decimalNumber? (negative : Bool) (cs : List Char) : Option Toml := do
  let isMark (c : Char) : Bool := c == 'e' || c == 'E'
  let mantissa := cs.takeWhile fun c => !isMark c
  let exponentText := cs.dropWhile fun c => !isMark c
  let wholeText := mantissa.takeWhile (· != '.')
  let fractionText := mantissa.dropWhile (· != '.')
  let whole ← wholeDigits? wholeText
  if fractionText.isEmpty && exponentText.isEmpty then
    let n : Int := positional 10 (digitValues 10 whole)
    integer? (if negative then -n else n)
  else
    let fraction ←
      if fractionText.isEmpty then some [] else separatedDigits? 10 (fractionText.drop 1)
    let exponent ← if exponentText.isEmpty then some 0 else do
      let (sign?, digitsText) := splitSign (exponentText.drop 1)
      let digits ← separatedDigits? 10 digitsText
      let n : Int := positional 10 (digitValues 10 digits)
      some (if sign? = some true then -n else n)
    let d := Decimal.ofDigits (digitValues 10 whole) (digitValues 10 fraction) exponent
    let x : Double := d.toBinary .double negative
    if x = .infinite false then none else some (.float x)

/-- An integer or a float. -/
def number? (cs : List Char) : Option Toml :=
  match cs with
  | '0' :: 'x' :: rest => baseInteger? 16 rest
  | '0' :: 'o' :: rest => baseInteger? 8 rest
  | '0' :: 'b' :: rest => baseInteger? 2 rest
  | _ =>
    let (sign?, rest) := splitSign cs
    let negative := sign? == some true
    if rest = "inf".toList then some (.float (.infinite negative))
    else if rest = "nan".toList then some (.float .nan)
    else decimalNumber? negative rest

/-! ### Dates and times -/

/-- A number of exactly so many digits, in a range. -/
def field? (count low high : Nat) (cs : List Char) : Option (Nat × List Char) :=
  let digits := cs.take count
  let value := positional 10 (digitValues 10 digits)
  if digits.length = count ∧ digits.all (isDigitOf 10) ∧ low ≤ value ∧ value ≤ high then
    some (value, cs.drop count)
  else none

def isLeapYear (year : Nat) : Bool :=
  year % 4 == 0 && (year % 100 != 0 || year % 400 == 0)

def daysInMonth (year month : Nat) : Nat :=
  if month = 2 then (if isLeapYear year then 29 else 28)
  else if month = 4 ∨ month = 6 ∨ month = 9 ∨ month = 11 then 30
  else 31

/-- A date at the front, and what follows it. -/
def afterDate? (cs : List Char) : Option (List Char) := do
  let (year, rest) ← field? 4 0 9999 cs
  let (month, rest) ← field? 2 1 12 (← afterWord? ['-'] rest)
  let (_, rest) ← field? 2 1 (daysInMonth year month) (← afterWord? ['-'] rest)
  return rest

/-- A time of day at the front, and what follows it. -/
def afterTime? (cs : List Char) : Option (List Char) := do
  let (_, rest) ← field? 2 0 23 cs
  let (_, rest) ← field? 2 0 59 (← afterWord? [':'] rest)
  let (_, rest) ← field? 2 0 60 (← afterWord? [':'] rest)
  match rest with
  | '.' :: fraction =>
    if fraction.head?.any (isDigitOf 10) then return fraction.dropWhile (isDigitOf 10) else none
  | _ => return rest

/-- An offset from universal time at the front, if there is one, and what follows it. -/
def afterOffset? (cs : List Char) : Option (List Char) :=
  match cs with
  | 'Z' :: rest => some rest
  | 'z' :: rest => some rest
  | _ => match splitSign cs with
    | (none, _) => some cs
    | (some _, rest) => do
      let (_, rest) ← field? 2 0 23 rest
      let (_, rest) ← field? 2 0 59 (← afterWord? [':'] rest)
      return rest

/-- A date with or without a time, or a time, at the front, and what follows it. -/
def afterDatetime? (cs : List Char) : Option (List Char) :=
  match afterDate? cs with
  | none => afterTime? cs
  | some rest => match rest with
    | separator :: more =>
      if separator = 'T' ∨ separator = 't' ∨ separator = ' ' then
        some (((afterTime? more).bind afterOffset?).getD rest)
      else some rest
    | [] => some []

/-! ### All scalars -/

/-- The characters at which a word or a number ends. -/
def isDelimiter (c : Char) : Bool :=
  isBlank c || c == '\n' || c == '\r' || c == ',' || c == ']' || c == '\x7d' || c == '#'

/-- A boolean, a number, or a date or time, and what follows it. -/
def bareScalar? (cs : List Char) : Option (Toml × List Char) :=
  match afterDatetime? cs with
  | some rest => some (.datetime (String.ofList (cs.take (cs.length - rest.length))), rest)
  | none =>
    let word := cs.takeWhile fun c => !isDelimiter c
    let rest := cs.dropWhile fun c => !isDelimiter c
    if word = "true".toList then some (.boolean true, rest)
    else if word = "false".toList then some (.boolean false, rest)
    else (number? word).map fun value => (value, rest)

/-- A value that holds no other values, and what follows it. -/
def scalar? (cs : List Char) : Option (Toml × List Char) :=
  if cs.head? = some '"' ∨ cs.head? = some apostrophe then
    (string? cs).map fun (text, rest) => (.string text, rest)
  else bareScalar? cs

end Metrology.Toml
