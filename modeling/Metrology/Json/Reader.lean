/-
Module: Metrology.Json.Reader
Layer: Documents
Purpose: Reading JSON documents. A document is one value between blanks; a number with neither
  fraction nor exponent is an integer, apart from a negative zero; a string may hold any character
  that is not a control character, and escapes; one whose surrogates do not pair has no text.
Imports: Metrology.Json.Value, Metrology.Decimal.Reader, Metrology.Reading
Main exports: Json.readValue, Json.read?
-/
import Metrology.Json.Value
import Metrology.Decimal.Reader
import Metrology.Reading

namespace Metrology.Json

/-! ### Blanks and numbers -/

def isBlank (c : Char) : Bool := c == ' ' || c == '\t' || c == '\n' || c == '\r'

def skipBlanks (cs : List Char) : List Char := cs.dropWhile isBlank

theorem length_skipBlanks_le (cs : List Char) : (skipBlanks cs).length ≤ cs.length :=
  (List.dropWhile_suffix _).length_le

theorem length_lt_of_skipBlanks {cs rest : List Char} {c : Char} (h : skipBlanks cs = c :: rest) :
    rest.length < cs.length :=
  length_lt_of_dropWhile h

/-- Digits at the front, and what follows them. -/
def digitsOf (cs : List Char) : List Char × List Char :=
  (cs.takeWhile (isDigitOf 10), cs.dropWhile (isDigitOf 10))

/-- Digits that have to be there. -/
def someDigits? (cs : List Char) : Option (List Char × List Char) :=
  let (digits, rest) := digitsOf cs
  if digits.isEmpty then none else some (digits, rest)

/-- The whole part of a number: `0`, or digits that begin with another one. -/
def wholePart? : List Char → Option (List Char × List Char)
  | '0' :: rest =>
    if (rest.head?.any (isDigitOf 10)) then none else some (['0'], rest)
  | cs => someDigits? cs

/-- A point with digits, if there is a point. -/
def fractionPart? : List Char → Option (List Char × List Char)
  | '.' :: rest => someDigits? rest
  | cs => some ([], cs)

/-- A mark with a signed whole number, if there is a mark. -/
def exponentPart? : List Char → Option (Option Int × List Char)
  | [] => some (none, [])
  | c :: cs =>
    if c = 'e' ∨ c = 'E' then
      let (negative, cs) := match cs with
        | '-' :: rest => (true, rest)
        | '+' :: rest => (false, rest)
        | rest => (false, rest)
      (someDigits? cs).map fun (digits, rest) =>
        let n : Int := positional 10 (digitValues 10 digits)
        (some (if negative then -n else n), rest)
    else some (none, c :: cs)

/-- An unsigned number. -/
def magnitude? (negative : Bool) (cs : List Char) : Option (Json × List Char) := do
  let (whole, rest) ← wholePart? cs
  let (fraction, rest) ← fractionPart? rest
  let (exponent?, rest) ← exponentPart? rest
  let n := positional 10 (digitValues 10 whole)
  if fraction.isEmpty && exponent?.isNone && !(negative && n == 0) then
    return (.integer (if negative then -(n : Int) else n), rest)
  else
    let d := Decimal.ofDigits (digitValues 10 whole) (digitValues 10 fraction) (exponent?.getD 0)
    return (.real (d.toBinary .double negative), rest)

/-- A number. -/
def number? : List Char → Option (Json × List Char)
  | '-' :: cs => magnitude? true cs
  | cs => magnitude? false cs

/-! ### Strings -/

/-- Four hexadecimal digits. -/
def hexFour? : List Char → Option (Nat × List Char)
  | a :: b :: c :: d :: rest =>
    if [a, b, c, d].all (isDigitOf 16) then
      some (positional 16 (digitValues 16 [a, b, c, d]), rest)
    else none
  | _ => none

def isHighSurrogate (n : Nat) : Bool := 0xd800 ≤ n && n < 0xdc00

def isLowSurrogate (n : Nat) : Bool := 0xdc00 ≤ n && n < 0xe000

/-- The character of an escape with hexadecimal digits; two surrogates make one character, and a
    surrogate without its partner makes none. -/
def unicodeEscape? (cs : List Char) : Option (Option Char × List Char) :=
  match hexFour? cs with
  | none => none
  | some (n, rest) =>
    if isHighSurrogate n then
      match rest with
      | '\\' :: 'u' :: more =>
        match hexFour? more with
        | some (m, after) =>
          if isLowSurrogate m then
            some (some (Char.ofNat (0x10000 + (n - 0xd800) * 0x400 + (m - 0xdc00))), after)
          else some (none, rest)
        | none => none
      | _ => some (none, rest)
    else if isLowSurrogate n then some (none, rest)
    else some (some (Char.ofNat n), rest)

/-- The character of an escape, after its backslash. -/
def escape? : List Char → Option (Option Char × List Char)
  | '"' :: rest => some (some '"', rest)
  | '\\' :: rest => some (some '\\', rest)
  | '/' :: rest => some (some '/', rest)
  | 'b' :: rest => some (some '\x08', rest)
  | 'f' :: rest => some (some '\x0c', rest)
  | 'n' :: rest => some (some '\n', rest)
  | 'r' :: rest => some (some '\r', rest)
  | 't' :: rest => some (some '\t', rest)
  | 'u' :: rest => unicodeEscape? rest
  | _ => none

/-- The characters up to the closing quote, unless an escape among them makes none, and what follows
    the quote. An escape that would not shorten the input is refused. -/
def stringTail? (cs : List Char) : Option (Option (List Char) × List Char) :=
  match cs with
  | [] => none
  | c :: rest =>
    if c = '"' then some (some [], rest)
    else if c = '\\' then
      match escape? rest with
      | none => none
      | some (decoded, after) =>
        if after.length < rest.length then
          (stringTail? after).map fun (text, left) =>
            (decoded.bind fun first => text.map (first :: ·), left)
        else none
    else if c.toNat < 32 then none
    else (stringTail? rest).map fun (text, left) => (text.map (c :: ·), left)
termination_by cs.length
decreasing_by all_goals simp only [List.length_cons]; omega

/-! ### Values -/

/-- The text up to the closing quote, if it has one, and what follows the quote. -/
def quoted? (cs : List Char) : Option (Option String × List Char) :=
  (stringTail? cs).map fun (text, left) => (text.map String.ofList, left)

/-- The text of a string without its quotes, if it has one, and what follows it. -/
def quotedText? (cs : List Char) : Option (Reading (Option String) cs) :=
  match cs with
  | '"' :: rest => Reading.ofOption? _ (quoted? rest)
  | _ => none

def ofText (text : Option String) : Json := text.elim garbled string

def ofMembers (members : Option (List (String × Json))) : Json := members.elim garbled object

/-- One more member in front; there are none to tell if any of the names has no text. -/
def addMember (name : Option String) (value : Json) (members : Option (List (String × Json))) :
    Option (List (String × Json)) :=
  name.bind fun name => members.map ((name, value) :: ·)

/-- The rest of a word that stands for a value. -/
def wordTail? (word : String) (value : Json) (cs : List Char) : Option (Json × List Char) :=
  (afterWord? word.toList cs).map fun rest => (value, rest)

mutual

/-- Reads one value; there may be blanks before it. -/
def readValue (cs : List Char) : Option (Reading Json cs) :=
  match front : skipBlanks cs with
  | [] => none
  | '[' :: rest =>
    have used : rest.length < cs.length := length_lt_of_skipBlanks front
    match closing : skipBlanks rest with
    | ']' :: after =>
      some ⟨(.array [], after), Nat.lt_trans (length_lt_of_skipBlanks closing) used⟩
    | _ => match readItems rest with
      | none => none
      | some ⟨(items, after), h⟩ => some ⟨(.array items, after), Nat.lt_trans h used⟩
  | '\x7b' :: rest =>
    have used : rest.length < cs.length := length_lt_of_skipBlanks front
    match closing : skipBlanks rest with
    | '\x7d' :: after =>
      some ⟨(.object [], after), Nat.lt_trans (length_lt_of_skipBlanks closing) used⟩
    | _ => match readMembers rest with
      | none => none
      | some ⟨(members, after), h⟩ => some ⟨(ofMembers members, after), Nat.lt_trans h used⟩
  | 'n' :: rest => Reading.ofOption? _ (wordTail? "ull" .null rest)
  | 't' :: rest => Reading.ofOption? _ (wordTail? "rue" (.bool true) rest)
  | 'f' :: rest => Reading.ofOption? _ (wordTail? "alse" (.bool false) rest)
  | '"' :: rest =>
    Reading.ofOption? _ ((quoted? rest).map fun (text, left) => (ofText text, left))
  | other => Reading.ofOption? _ (number? other)
termination_by (cs.length, 0)

/-- Reads the items of an array and its closing bracket. -/
def readItems (cs : List Char) : Option (Reading (List Json) cs) :=
  match readValue cs with
  | none => none
  | some ⟨(item, rest), used⟩ =>
    have usedItem : rest.length < cs.length := used
    match next : skipBlanks rest with
    | ']' :: after =>
      some ⟨([item], after), Nat.lt_trans (length_lt_of_skipBlanks next) usedItem⟩
    | ',' :: more =>
      have shorter : more.length < cs.length :=
        Nat.lt_trans (length_lt_of_skipBlanks next) usedItem
      match readItems more with
      | none => none
      | some ⟨(items, after), h⟩ => some ⟨(item :: items, after), Nat.lt_trans h shorter⟩
    | _ => none
termination_by (cs.length, 1)

/-- Reads the members of an object, unless one of their names has no text, and its closing brace. -/
def readMembers (cs : List Char) : Option (Reading (Option (List (String × Json))) cs) :=
  match quotedText? (skipBlanks cs) with
  | none => none
  | some ⟨(name, rest), used⟩ =>
    have usedName : rest.length < cs.length := Nat.lt_of_lt_of_le used (length_skipBlanks_le cs)
    match colon : skipBlanks rest with
    | ':' :: body =>
      have usedColon : body.length < cs.length :=
        Nat.lt_trans (length_lt_of_skipBlanks colon) usedName
      match readValue body with
      | none => none
      | some ⟨(value, rest), usedValue⟩ =>
        have usedMember : rest.length < cs.length := Nat.lt_trans usedValue usedColon
        match next : skipBlanks rest with
        | '\x7d' :: after =>
          some ⟨(addMember name value (some []), after),
            Nat.lt_trans (length_lt_of_skipBlanks next) usedMember⟩
        | ',' :: more =>
          have shorter : more.length < cs.length :=
            Nat.lt_trans (length_lt_of_skipBlanks next) usedMember
          match readMembers more with
          | none => none
          | some ⟨(members, after), h⟩ =>
            some ⟨(addMember name value members, after), Nat.lt_trans h shorter⟩
        | _ => none
    | _ => none
termination_by (cs.length, 1)

end

/-- The value of a whole document. -/
def read? (document : String) : Option Json :=
  match readValue document.toList with
  | some ⟨(value, rest), _⟩ => if (skipBlanks rest).isEmpty then some value else none
  | none => none

end Metrology.Json
