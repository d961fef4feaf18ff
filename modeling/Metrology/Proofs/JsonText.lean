/-
Module: Metrology.Proofs.JsonText
Layer: Proofs
Purpose: JSON written and read back. The reader takes a written part off the front of any text that
  does not go on as a number, whatever blanks stand before it; arrays and objects are read part by
  part. So both written forms of a value are read as that value, if its numbers are integers.
Imports: Mathlib.Tactic.SplitIfs, Metrology.Json.Reader, Metrology.Proofs.DecimalLiteral,
  Metrology.Proofs.Lexing
Main exports: Json.Reads, Json.IsExact, Json.IsExact.read?_compact, Json.IsExact.read?_pretty
-/
import Mathlib.Tactic.SplitIfs
import Metrology.Json.Reader
import Metrology.Proofs.DecimalLiteral
import Metrology.Proofs.Lexing

namespace Metrology.Json

/-! ### One step of the reader -/

/-- The value at the front of a text, and what follows it. -/
def value? (cs : List Char) : Option (Json × List Char) := (readValue cs).map Subtype.val

/-- The items at the front of a text, and what follows the bracket behind them. -/
def items? (cs : List Char) : Option (List Json × List Char) := (readItems cs).map Subtype.val

/-- The members at the front of a text, and what follows the brace behind them. -/
def members? (cs : List Char) : Option (Option (List (String × Json)) × List Char) :=
  (readMembers cs).map Subtype.val

variable {cs rest after : List Char}

/-- What has used at least one character is handed back as it is. -/
theorem map_val_ofOption? {α : Type} (value : α) (bs : List Char) (c : Char)
    (cs rest : List Char) :
    (Reading.ofOption? (bs ++ c :: (cs ++ rest)) (some (value, rest))).map Subtype.val =
      some (value, rest) := by
  have shorter : rest.length < (bs ++ c :: (cs ++ rest)).length := by
    simp only [List.length_append, List.length_cons]
    omega
  rw [Reading.ofOption?, dif_pos shorter]
  rfl

theorem read?_eq (document : String) :
    read? document = (value? document.toList).bind fun (value, rest) =>
      if (skipBlanks rest).isEmpty then some value else none := by
  rw [read?, value?]
  cases readValue document.toList with
  | none => rfl
  | some reading => rfl

/-- Characters that may stand between the parts of a text. -/
def AreBlank (bs : List Char) : Prop := ∀ b ∈ bs, isBlank b = true

theorem areBlank_nil : AreBlank [] := List.forall_mem_nil _

theorem skipBlanks_append {bs : List Char} {c : Char} (blank : AreBlank bs)
    (visible : isBlank c = false) : skipBlanks (bs ++ c :: cs) = c :: cs :=
  dropWhile_append_eq blank (by simpa using visible)

theorem skipBlanks_cons {c : Char} (cs : List Char) (visible : isBlank c = false) :
    skipBlanks (c :: cs) = c :: cs :=
  List.dropWhile_cons_of_neg (by simp [visible])

/-- The reader of values without the proof that it uses some of its input. -/
theorem value?_eq (cs : List Char) : value? cs =
    match skipBlanks cs with
    | [] => none
    | '[' :: rest =>
      match skipBlanks rest with
      | ']' :: after => some (.array [], after)
      | _ => (items? rest).map fun (items, after) => (.array items, after)
    | '\x7b' :: rest =>
      match skipBlanks rest with
      | '\x7d' :: after => some (.object [], after)
      | _ => (members? rest).map fun (members, after) => (ofMembers members, after)
    | 'n' :: rest => (Reading.ofOption? cs (wordTail? "ull" .null rest)).map Subtype.val
    | 't' :: rest => (Reading.ofOption? cs (wordTail? "rue" (.bool true) rest)).map Subtype.val
    | 'f' :: rest => (Reading.ofOption? cs (wordTail? "alse" (.bool false) rest)).map Subtype.val
    | '"' :: rest => (Reading.ofOption? cs
        ((quoted? rest).map fun (text, left) => (ofText text, left))).map Subtype.val
    | other => (Reading.ofOption? cs (number? other)).map Subtype.val := by
  rw [value?, readValue]
  split
  · next front => simp only [front]; rfl
  · next front =>
    simp only [front]
    split
    · next closing => simp only [closing]; rfl
    · next closing =>
      rw [items?]
      split
      · next h => simp [h]
      · next h => simp [h]
  · next front =>
    simp only [front]
    split
    · next closing => simp only [closing]; rfl
    · next closing =>
      rw [members?]
      split
      · next h => simp [h]
      · next h => simp [h]
  all_goals next front => simp only [front]

theorem items?_eq (cs : List Char) : items? cs =
    (value? cs).bind fun (item, rest) =>
      match skipBlanks rest with
      | ']' :: after => some ([item], after)
      | ',' :: more => (items? more).map fun (items, after) => (item :: items, after)
      | _ => none := by
  rw [items?, readItems, value?]
  split
  · next h => simp [h]
  · next h =>
    simp only [h, Option.map_some, Option.bind_some]
    split
    · next next => simp only [next]; rfl
    · next next =>
      simp only [next, items?]
      split
      · next h => simp [h]
      · next h => simp [h]
    · next next => simp only [Option.map_none]

theorem members?_eq (cs : List Char) : members? cs =
    ((quotedText? (skipBlanks cs)).map Subtype.val).bind fun (name, rest) =>
      match skipBlanks rest with
      | ':' :: body => (value? body).bind fun (value, rest) =>
        match skipBlanks rest with
        | '\x7d' :: after => some (addMember name value (some []), after)
        | ',' :: more =>
          (members? more).map fun (members, after) => (addMember name value members, after)
        | _ => none
      | _ => none := by
  rw [members?, readMembers]
  split
  · next h => simp [h]
  · next h =>
    simp only [h, Option.map_some, Option.bind_some]
    split
    · next colon =>
      simp only [colon, value?]
      split
      · next h => simp [h]
      · next h =>
        simp only [h, Option.map_some, Option.bind_some]
        split
        · next next => simp only [next]; rfl
        · next next =>
          simp only [next, members?]
          split
          · next h => simp [h]
          · next h => simp [h]
        · next next => simp only [Option.map_none]
    · next colon => simp only [Option.map_none]

/-! ### Integers -/

/-- No number goes on in the text. -/
def EndsNumber (rest : List Char) : Prop :=
  ∀ c ∈ rest.head?, isDigitOf 10 c = false ∧ c ≠ '.' ∧ c ≠ 'e' ∧ c ≠ 'E'

theorem endsNumber_nil : EndsNumber [] := fun _ mem => nomatch mem

theorem endsNumber_cons {c : Char} (digit : isDigitOf 10 c = false)
    (other : c ≠ '.' ∧ c ≠ 'e' ∧ c ≠ 'E') : EndsNumber (c :: rest) := by
  intro d mem
  obtain rfl : c = d := by simpa using mem
  exact ⟨digit, other⟩

theorem wholePart?_decimalDigits (n : Nat) (ends : EndsNumber rest) :
    wholePart? (decimalDigits n ++ rest) = some (decimalDigits n, rest) := by
  have boundary : ∀ c ∈ rest.head?, isDigitOf 10 c = false := fun c mem => (ends c mem).1
  rcases Nat.eq_zero_or_pos n with rfl | pos
  · have single : (rest.head?.any (isDigitOf 10)) = false := by
      cases rest with
      | nil => rfl
      | cons c rest => exact boundary c rfl
    change wholePart? ('0' :: rest) = some (['0'], rest)
    rw [wholePart?, single]
    rfl
  · have digits : ∀ c ∈ decimalDigits n, isDigitOf 10 c = true :=
      fun c mem => isDigitOf_of_isDigit (isDigit_of_mem_decimalDigits mem)
    have taken := takeWhile_append_eq digits boundary
    have dropped := dropWhile_append_eq digits boundary
    have lead := head?_decimalDigits pos
    obtain ⟨c, cs, shape, -⟩ := exists_cons_decimalDigits n
    rw [shape] at taken dropped lead ⊢
    have notZero : c ≠ '0' := by simpa using lead
    have several : wholePart? (c :: (cs ++ rest)) = someDigits? (c :: (cs ++ rest)) := by
      rw [wholePart?]
      rintro rest ⟨⟩
      exact absurd rfl notZero
    rw [List.cons_append, several, someDigits?, digitsOf, ← List.cons_append, taken, dropped]
    rfl

theorem fractionPart?_of_endsNumber (ends : EndsNumber rest) :
    fractionPart? rest = some ([], rest) := by
  rw [fractionPart?]
  rintro cs rfl
  exact (ends '.' rfl).2.1 rfl

theorem exponentPart?_of_endsNumber (ends : EndsNumber rest) :
    exponentPart? rest = some (none, rest) := by
  cases rest with
  | nil => rfl
  | cons c rest =>
      have noMark : ¬ (c = 'e' ∨ c = 'E') := not_or.2 (ends c rfl).2.2
      unfold exponentPart?
      exact if_neg noMark

theorem magnitude?_decimalDigits (negative : Bool) (n : Nat) (ends : EndsNumber rest)
    (proper : negative = true → n ≠ 0) :
    magnitude? negative (decimalDigits n ++ rest) =
      some (.integer (if negative then -(n : Int) else n), rest) := by
  simpa [magnitude?, wholePart?_decimalDigits n ends, fractionPart?_of_endsNumber ends,
    exponentPart?_of_endsNumber ends, positional_decimalDigits] using proper

theorem number?_intText (n : Int) (ends : EndsNumber rest) :
    number? (intText n ++ rest) = some (.integer n, rest) := by
  rcases Int.lt_or_le n 0 with negative | positive
  · have value : -(n.natAbs : Int) = n := by omega
    have proper : true = true → n.natAbs ≠ 0 := fun _ => by omega
    have read := magnitude?_decimalDigits true n.natAbs ends proper
    rw [if_pos rfl, value] at read
    rw [intText, if_pos negative]
    exact read
  · have value : (n.natAbs : Int) = n := by omega
    have read := magnitude?_decimalDigits false n.natAbs ends (by simp)
    rw [if_neg (by decide), value] at read
    rw [intText, if_neg (Int.not_lt.2 positive), List.nil_append, ← read]
    obtain ⟨c, cs, shape, digit⟩ := exists_cons_decimalDigits n.natAbs
    have noMinus : c ≠ '-' := ne_of_isDigit digit rfl
    rw [← decimalDigits, shape, List.cons_append, number?]
    rintro rest ⟨⟩
    exact absurd rfl noMinus

/-! ### Strings -/

/-- A control character is written as four digits that denote it. -/
theorem unicodeEscape?_control {c : Char} (control : c.toNat < 32) (cs : List Char) :
    unicodeEscape? ('0' :: '0' :: hexDigit (c.toNat / 16) :: hexDigit c.toNat :: cs) =
      some (some c, cs) := by
  have digits : ∀ n < 32, ['0', '0', hexDigit (n / 16), hexDigit n].all (isDigitOf 16) = true ∧
      positional 16 (digitValues 16 ['0', '0', hexDigit (n / 16), hexDigit n]) = n ∧
      isHighSurrogate n = false ∧ isLowSurrogate n = false := by decide
  obtain ⟨all, value, noHigh, noLow⟩ := digits c.toNat control
  have four : hexFour? ('0' :: '0' :: hexDigit (c.toNat / 16) :: hexDigit c.toNat :: cs) =
      some (c.toNat, cs) := by
    rw [hexFour?, if_pos all, value]
  rw [unicodeEscape?, four]
  simp [noHigh, noLow, Char.ofNat_toNat]

theorem stringTail?_backslash {c : Char} (cs : List Char)
    (found : escape? cs = some (some c, after)) (shorter : after.length < cs.length) :
    stringTail? ('\\' :: cs) =
      (stringTail? after).map fun (text, left) => (text.map (c :: ·), left) := by
  rw [stringTail?, if_neg (by decide), if_pos rfl, found]
  exact if_pos shorter

/-- One character of a string, escaped or not, is read as that character. -/
theorem stringTail?_escape (c : Char) (cs : List Char) :
    stringTail? (escape c ++ cs) =
      (stringTail? cs).map fun (text, left) => (text.map (c :: ·), left) := by
  unfold escape
  split_ifs with quote backslash backspace feed newline carriage tab control
  -- the seven characters that have a letter of their own
  iterate 7
    subst c
    exact stringTail?_backslash (_ :: cs) rfl (Nat.lt_succ_self _)
  · exact stringTail?_backslash ('u' :: '0' :: '0' :: _ :: _ :: cs)
      (unicodeEscape?_control control cs) (by simp only [List.length_cons]; omega)
  · rw [List.singleton_append, stringTail?, if_neg quote, if_neg backslash, if_neg control]

theorem stringTail?_flatMap_escape (text rest : List Char) :
    stringTail? (text.flatMap escape ++ '"' :: rest) = some (some text, rest) := by
  induction text with
  | nil => rw [List.flatMap_nil, List.nil_append, stringTail?, if_pos rfl]
  | cons c text ih =>
      rw [List.flatMap_cons, List.append_assoc, stringTail?_escape, ih]
      rfl

theorem quoted?_text (s : String) (rest : List Char) :
    quoted? (s.toList.flatMap escape ++ '"' :: rest) = some (some s, rest) := by
  rw [quoted?, stringTail?_flatMap_escape]
  simp

/-! ### Values in a text -/

/-- Behind blanks and before any text that no number goes on in, the characters are read as the
    value. -/
def Reads (cs : List Char) (value : Json) : Prop :=
  ∀ bs rest, AreBlank bs → EndsNumber rest → value? (bs ++ (cs ++ rest)) = some (value, rest)

/-- Behind blanks, the characters are read as the items of an array and its closing bracket. -/
def ReadsItems (cs : List Char) (items : List Json) : Prop :=
  ∀ bs rest, AreBlank bs → items? (bs ++ (cs ++ rest)) = some (items, rest)

/-- Behind blanks, the characters are read as the members of an object and its closing brace. -/
def ReadsMembers (cs : List Char) (members : List (String × Json)) : Prop :=
  ∀ bs rest, AreBlank bs → members? (bs ++ (cs ++ rest)) = some (some members, rest)

theorem Reads.read? {value : Json} (h : Reads cs value) :
    Json.read? (String.ofList cs) = some value := by
  have read := h [] [] areBlank_nil endsNumber_nil
  rw [List.nil_append, List.append_nil] at read
  rw [read?_eq, String.toList_ofList, read]
  rfl

/-- The words that are values, each with its first letter apart. -/
def words : List (Char × String × Json) :=
  [('n', "ull", .null), ('t', "rue", .bool true), ('f', "alse", .bool false)]

variable {c : Char}

theorem value?_word {word : String} {value : Json} (known : (c, word, value) ∈ words)
    (front : skipBlanks cs = c :: rest) :
    value? cs = (Reading.ofOption? cs (wordTail? word value rest)).map Subtype.val := by
  simp only [words, List.mem_cons, Prod.mk.injEq, List.not_mem_nil, or_false] at known
  obtain ⟨rfl, rfl, rfl⟩ | ⟨rfl, rfl, rfl⟩ | ⟨rfl, rfl, rfl⟩ := known
  all_goals
    rw [value?_eq, front]
    rfl

theorem value?_quote (front : skipBlanks cs = '"' :: rest) :
    value? cs = (Reading.ofOption? cs
      ((quoted? rest).map fun (text, left) => (ofText text, left))).map Subtype.val := by
  rw [value?_eq, front]
  rfl

/-- A minus or a digit is the beginning of a number. -/
theorem value?_number (lead : c = '-' ∨ c.isDigit = true) (front : skipBlanks cs = c :: rest) :
    value? cs = (Reading.ofOption? cs (number? (c :: rest))).map Subtype.val := by
  rw [value?_eq, front]
  split
  case h_1 same => cases same
  case h_8 => rfl
  all_goals
    next same =>
      obtain ⟨rfl, -⟩ := List.cons.inj same
      exact absurd lead (by decide)

theorem reads_word (c : Char) (word : String) {value : Json} (known : (c, word, value) ∈ words)
    (visible : isBlank c = false) : Reads (c :: word.toList) value := by
  intro bs rest blank _
  have found : wordTail? word value (word.toList ++ rest) = some (value, rest) := by
    rw [wordTail?, afterWord?_eq_some_iff.2 rfl, Option.map_some]
  rw [List.cons_append, value?_word known (skipBlanks_append blank visible), found,
    map_val_ofOption?]

theorem reads_stringText (s : String) : Reads (stringText s) (.string s) := by
  intro bs rest blank _
  have found : quoted? (s.toList.flatMap escape ++ ['"'] ++ rest) = some (some s, rest) := by
    rw [List.append_assoc]
    exact quoted?_text s rest
  rw [stringText, List.cons_append, List.cons_append, value?_quote (skipBlanks_append blank rfl),
    found, Option.map_some, map_val_ofOption?]
  rfl

theorem exists_intText (n : Int) :
    ∃ c cs, intText n = c :: cs ∧ (c = '-' ∨ c.isDigit = true) := by
  rw [intText]
  split
  · exact ⟨'-', _, rfl, .inl rfl⟩
  · obtain ⟨c, cs, shape, digit⟩ := exists_cons_decimalDigits n.natAbs
    exact ⟨c, cs, shape, .inr digit⟩

theorem not_isBlank_of_lead (lead : c = '-' ∨ c.isDigit = true) : isBlank c = false := by
  obtain rfl | digit := lead
  · rfl
  · have other : ∀ {b : Char}, b.isDigit = false → c ≠ b := ne_of_isDigit digit
    simp [isBlank, other]

theorem reads_intText (n : Int) : Reads (intText n) (.integer n) := by
  intro bs rest blank ends
  have found := number?_intText n ends
  obtain ⟨c, cs, shape, lead⟩ := exists_intText n
  rw [shape, List.cons_append] at found
  rw [shape, List.cons_append,
    value?_number lead (skipBlanks_append blank (not_isBlank_of_lead lead)), found,
    map_val_ofOption?]

/-! ### Arrays -/

variable {bs ds : List Char} {name : String} {value : Json} {items : List Json}
  {members : List (String × Json)}

theorem AreBlank.append (front : AreBlank bs) (back : AreBlank ds) : AreBlank (bs ++ ds) :=
  List.forall_mem_append.2 ⟨front, back⟩

/-- No number goes on behind blanks. -/
theorem endsNumber_append (blank : AreBlank bs) (ends : EndsNumber rest) :
    EndsNumber (bs ++ rest) := by
  cases bs with
  | nil => exact ends
  | cons b bs =>
      have first := blank b (List.mem_cons_self ..)
      simp only [isBlank, Bool.or_eq_true, beq_iff_eq] at first
      obtain ((rfl | rfl) | rfl) | rfl := first
      all_goals exact endsNumber_cons (by decide) (by decide)

theorem Reads.behind (h : Reads cs value) (blank : AreBlank bs) : Reads (bs ++ cs) value := by
  intro front rest frontBlank ends
  rw [List.append_assoc, ← List.append_assoc front]
  exact h _ rest (frontBlank.append blank) ends

theorem value?_closing (closing : skipBlanks cs = ']' :: after) : value? cs = none := by
  rw [value?_eq, closing]
  rfl

theorem value?_array_nil (front : skipBlanks cs = '[' :: rest)
    (closing : skipBlanks rest = ']' :: after) : value? cs = some (.array [], after) := by
  rw [value?_eq]
  simp only [front, closing]

theorem value?_array (front : skipBlanks cs = '[' :: rest)
    (found : items? rest = some (items, after)) : value? cs = some (.array items, after) := by
  rw [value?_eq]
  simp only [front]
  split
  · next closing =>
      rw [items?_eq, value?_closing closing] at found
      cases found
  · rw [found, Option.map_some]

theorem items?_last (found : value? cs = some (value, rest))
    (closing : skipBlanks rest = ']' :: after) : items? cs = some ([value], after) := by
  rw [items?_eq, found]
  simp only [Option.bind_some, closing]

theorem items?_cons {more : List Char} (found : value? cs = some (value, rest))
    (comma : skipBlanks rest = ',' :: more) (others : items? more = some (items, after)) :
    items? cs = some (value :: items, after) := by
  rw [items?_eq, found]
  simp only [Option.bind_some, comma, others, Option.map_some]

theorem Reads.lastItem (h : Reads cs value) (blank : AreBlank bs) :
    ReadsItems (cs ++ (bs ++ [']'])) [value] := by
  intro front rest frontBlank
  have ends : EndsNumber (bs ++ ']' :: rest) :=
    endsNumber_append blank (endsNumber_cons (by decide) (by decide))
  have text : cs ++ (bs ++ [']']) ++ rest = cs ++ (bs ++ ']' :: rest) := by simp
  rw [text]
  exact items?_last (h front _ frontBlank ends) (skipBlanks_append blank (by decide))

theorem Reads.item (h : Reads cs value) (others : ReadsItems ds items) :
    ReadsItems (cs ++ ',' :: ds) (value :: items) := by
  intro front rest frontBlank
  have ends : EndsNumber (',' :: (ds ++ rest)) := endsNumber_cons (by decide) (by decide)
  rw [List.append_assoc, List.cons_append]
  exact items?_cons (h front _ frontBlank ends) (skipBlanks_cons _ (by decide))
    (others [] rest areBlank_nil)

theorem reads_array_nil : Reads ['[', ']'] (.array []) := by
  intro bs rest blank _
  exact value?_array_nil (skipBlanks_append blank (by decide))
    (skipBlanks_cons rest (by decide))

theorem ReadsItems.array (h : ReadsItems cs items) : Reads ('[' :: cs) (.array items) := by
  intro bs rest blank _
  exact value?_array (skipBlanks_append blank (by decide)) (h [] rest areBlank_nil)

/-! ### Objects -/

theorem quotedText?_stringText (name : String) (rest : List Char) :
    (quotedText? (stringText name ++ rest)).map Subtype.val = some (some name, rest) := by
  have found : quoted? (name.toList.flatMap escape ++ ['"'] ++ rest) = some (some name, rest) := by
    rw [List.append_assoc]
    exact quoted?_text name rest
  rw [stringText, List.cons_append, List.cons_append, quotedText?, found]
  exact map_val_ofOption? (some name) [] '"' _ rest

theorem value?_object_nil (front : skipBlanks cs = '\x7b' :: rest)
    (closing : skipBlanks rest = '\x7d' :: after) : value? cs = some (.object [], after) := by
  rw [value?_eq]
  simp only [front, closing]

theorem value?_object (front : skipBlanks cs = '\x7b' :: rest)
    (found : members? rest = some (some members, after)) :
    value? cs = some (.object members, after) := by
  rw [value?_eq]
  simp only [front]
  split
  · next closing =>
      rw [members?_eq, closing] at found
      cases found
  · rw [found, Option.map_some]
    rfl

theorem skipBlanks_stringText (name : String) (blank : AreBlank bs) (rest : List Char) :
    skipBlanks (bs ++ (stringText name ++ rest)) = stringText name ++ rest :=
  skipBlanks_append blank (by decide)

theorem members?_last (front : skipBlanks cs = stringText name ++ ':' :: ds)
    (found : value? ds = some (value, rest)) (closing : skipBlanks rest = '\x7d' :: after) :
    members? cs = some (some [(name, value)], after) := by
  have colon : skipBlanks (':' :: ds) = ':' :: ds := skipBlanks_cons ds (by decide)
  rw [members?_eq, front, quotedText?_stringText]
  simp only [Option.bind_some, colon, found, closing]
  rfl

theorem members?_cons {more : List Char} (front : skipBlanks cs = stringText name ++ ':' :: ds)
    (found : value? ds = some (value, rest)) (comma : skipBlanks rest = ',' :: more)
    (others : members? more = some (some members, after)) :
    members? cs = some (some ((name, value) :: members), after) := by
  have colon : skipBlanks (':' :: ds) = ':' :: ds := skipBlanks_cons ds (by decide)
  rw [members?_eq, front, quotedText?_stringText]
  simp only [Option.bind_some, colon, found, comma, others, Option.map_some]
  rfl

theorem Reads.lastMember (h : Reads cs value) (name : String) (blank : AreBlank bs) :
    ReadsMembers (stringText name ++ ':' :: (cs ++ (bs ++ ['\x7d']))) [(name, value)] := by
  intro front rest frontBlank
  have ends : EndsNumber (bs ++ '\x7d' :: rest) :=
    endsNumber_append blank (endsNumber_cons (by decide) (by decide))
  have text : stringText name ++ ':' :: (cs ++ (bs ++ ['\x7d'])) ++ rest =
      stringText name ++ ':' :: (cs ++ (bs ++ '\x7d' :: rest)) := by simp
  rw [text]
  exact members?_last (skipBlanks_stringText name frontBlank _) (h [] _ areBlank_nil ends)
    (skipBlanks_append blank (by decide))

theorem Reads.member (h : Reads cs value) (name : String) (others : ReadsMembers ds members) :
    ReadsMembers (stringText name ++ ':' :: (cs ++ ',' :: ds)) ((name, value) :: members) := by
  intro front rest frontBlank
  have ends : EndsNumber (',' :: (ds ++ rest)) := endsNumber_cons (by decide) (by decide)
  have text : stringText name ++ ':' :: (cs ++ ',' :: ds) ++ rest =
      stringText name ++ ':' :: (cs ++ ',' :: (ds ++ rest)) := by simp
  rw [text]
  exact members?_cons (skipBlanks_stringText name frontBlank _) (h [] _ areBlank_nil ends)
    (skipBlanks_cons _ (by decide)) (others [] rest areBlank_nil)

theorem ReadsMembers.behind (h : ReadsMembers cs members) (blank : AreBlank bs) :
    ReadsMembers (bs ++ cs) members := by
  intro front rest frontBlank
  rw [List.append_assoc, ← List.append_assoc front]
  exact h _ rest (frontBlank.append blank)

theorem reads_object_nil : Reads ['\x7b', '\x7d'] (.object []) := by
  intro bs rest blank _
  exact value?_object_nil (skipBlanks_append blank (by decide))
    (skipBlanks_cons rest (by decide))

theorem ReadsMembers.object (h : ReadsMembers cs members) :
    Reads ('\x7b' :: cs) (.object members) := by
  intro bs rest blank _
  exact value?_object (skipBlanks_append blank (by decide)) (h [] rest areBlank_nil)

/-! ### The written forms -/

/-- Every number in a value is an integer, and every string has a text. -/
inductive IsExact : Json → Prop where
  | null : IsExact .null
  | bool (b : Bool) : IsExact (.bool b)
  | integer (n : Int) : IsExact (.integer n)
  | string (s : String) : IsExact (.string s)
  | array {items : List Json} (each : ∀ item ∈ items, item.IsExact) : IsExact (.array items)
  | object {members : List (String × Json)} (each : ∀ member ∈ members, member.2.IsExact) :
      IsExact (.object members)

theorem compactItems_eq (items : List Json) :
    compactItems items = [','].intercalate (items.map compactChars) := by
  induction items with
  | nil => rfl
  | cons item items ih =>
      cases items with
      | nil => simp [compactItems]
      | cons next items => simpa [compactItems] using ih

theorem prettyItems_eq (level : Nat) (items : List Json) :
    prettyItems level items =
      [','].intercalate (items.map fun item => indent level ++ item.prettyChars level) := by
  induction items with
  | nil => rfl
  | cons item items ih =>
      cases items with
      | nil => simp [prettyItems]
      | cons next items => simpa [prettyItems] using ih

theorem compactMembers_eq (members : List (String × Json)) :
    compactMembers members = [','].intercalate
      (members.map fun member => stringText member.1 ++ ':' :: member.2.compactChars) := by
  induction members with
  | nil => rfl
  | cons member members ih =>
      cases members with
      | nil => simp [compactMembers]
      | cons next members => simpa [compactMembers] using ih

theorem prettyMembers_eq (level : Nat) (members : List (String × Json)) :
    prettyMembers level members = [','].intercalate (members.map fun member =>
      indent level ++ (stringText member.1 ++ ':' :: ' ' :: member.2.prettyChars level)) := by
  induction members with
  | nil => rfl
  | cons member members ih =>
      cases members with
      | nil => simp [prettyMembers]
      | cons next members => simpa [prettyMembers] using ih

/-- Items with commas between them are read one by one, whatever form each of them has. -/
theorem readsItems_intercalate {text : Json → List Char} (nonempty : items ≠ [])
    (each : ∀ item ∈ items, Reads (text item) item) (blank : AreBlank bs) :
    ReadsItems ([','].intercalate (items.map text) ++ (bs ++ [']'])) items := by
  induction items with
  | nil => exact absurd rfl nonempty
  | cons item items ih =>
      obtain ⟨first, others⟩ := List.forall_mem_cons.1 each
      cases items with
      | nil => simpa using first.lastItem blank
      | cons next items => simpa using first.item (ih (List.cons_ne_nil _ _) others)

/-- Members with commas between them are read one by one, whatever form their values have. -/
theorem readsMembers_intercalate {front : List Char} (text : Json → List Char)
    (nonempty : members ≠ []) (each : ∀ member ∈ members, Reads (text member.2) member.2)
    (frontBlank : AreBlank front) (blank : AreBlank bs) :
    ReadsMembers ([','].intercalate (members.map fun member =>
      front ++ (stringText member.1 ++ ':' :: text member.2)) ++ (bs ++ ['\x7d'])) members := by
  induction members with
  | nil => exact absurd rfl nonempty
  | cons member members ih =>
      obtain ⟨name, value⟩ := member
      obtain ⟨first, others⟩ := List.forall_mem_cons.1 each
      cases members with
      | nil => simpa using (first.lastMember name blank).behind frontBlank
      | cons next members =>
          have more := ih (List.cons_ne_nil _ _) others
          simpa using (first.member name more).behind frontBlank

theorem reads_null : Reads "null".toList .null :=
  reads_word 'n' "ull" (by simp [words]) (by decide)

theorem reads_boolText (b : Bool) : Reads (boolText b) (.bool b) := by
  cases b with
  | false => exact reads_word 'f' "alse" (by simp [words]) (by decide)
  | true => exact reads_word 't' "rue" (by simp [words]) (by decide)

theorem areBlank_indent (level : Nat) : AreBlank (indent level) := by
  intro b mem
  obtain rfl | ⟨-, rfl⟩ := by simpa [indent] using mem
  all_goals decide

/-- The compact form of a value is read as the value. -/
theorem IsExact.reads_compact (h : value.IsExact) : Reads value.compactChars value := by
  induction h with
  | null => exact reads_null
  | bool b => exact reads_boolText b
  | integer n => exact reads_intText n
  | string s => exact reads_stringText s
  | @array items _ ih =>
      rw [compactChars, compactItems_eq]
      by_cases nonempty : items = []
      · subst nonempty
        exact reads_array_nil
      · exact (readsItems_intercalate nonempty ih areBlank_nil).array
  | @object members _ ih =>
      rw [compactChars, compactMembers_eq]
      by_cases nonempty : members = []
      · subst nonempty
        exact reads_object_nil
      · exact (readsMembers_intercalate compactChars nonempty ih areBlank_nil areBlank_nil).object

/-- The indented form of a value is read as the value. -/
theorem IsExact.reads_pretty (h : value.IsExact) (level : Nat) :
    Reads (value.prettyChars level) value := by
  induction h generalizing level with
  | null => exact reads_null
  | bool b => exact reads_boolText b
  | integer n => exact reads_intText n
  | string s => exact reads_stringText s
  | @array items _ ih =>
      cases items with
      | nil => exact reads_array_nil
      | cons item items =>
          have front := areBlank_indent (level + 1)
          have each := fun next mem => (ih next mem (level + 1)).behind front
          rw [prettyChars, prettyItems_eq, List.append_assoc]
          exact (readsItems_intercalate (List.cons_ne_nil _ _) each (areBlank_indent level)).array
  | @object members _ ih =>
      cases members with
      | nil => exact reads_object_nil
      | cons member members =>
          have space : AreBlank [' '] := by simp [AreBlank, isBlank]
          have each := fun next mem => (ih next mem (level + 1)).behind space
          have front := areBlank_indent (level + 1)
          rw [prettyChars, prettyMembers_eq, List.append_assoc]
          exact (readsMembers_intercalate (fun value => ' ' :: value.prettyChars (level + 1))
            (List.cons_ne_nil _ _) each front (areBlank_indent level)).object

theorem IsExact.read?_compact (h : value.IsExact) : Json.read? value.compact = some value :=
  h.reads_compact.read?

theorem IsExact.read?_pretty (h : value.IsExact) : Json.read? value.pretty = some value :=
  (h.reads_pretty 0).read?

end Metrology.Json
