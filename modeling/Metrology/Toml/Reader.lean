/-
Module: Metrology.Toml.Reader
Layer: Documents
Purpose: Reading TOML documents: values, keys, and the lines that open tables or add members to the
  table opened last. A document that defines anything twice has no reading.
Imports: Metrology.Toml.Scalar
Main exports: Toml.key?, Toml.readValue, Toml.readLines, Toml.read?
-/
import Metrology.Toml.Scalar

namespace Metrology.Toml

/-! ### Blanks and comments -/

/-- Skips blanks, line ends and comments. A comment holds no control characters. -/
def skipFiller? (inComment : Bool) : List Char → Option (List Char)
  | [] => some []
  | '\n' :: rest => skipFiller? false rest
  | '\r' :: '\n' :: rest => skipFiller? false rest
  | c :: rest =>
    if inComment then (if isPlain c then skipFiller? true rest else none)
    else if c = '#' then skipFiller? true rest
    else if isBlank c then skipFiller? false rest
    else some (c :: rest)

theorem length_skipFiller?_le {inComment : Bool} {cs rest : List Char}
    (h : skipFiller? inComment cs = some rest) : rest.length ≤ cs.length := by
  fun_induction skipFiller? inComment cs with
  | case1 => simp_all
  | case2 _ _ ih => exact Nat.le_succ_of_le (ih h)
  | case3 _ _ ih => exact Nat.le_succ_of_le (Nat.le_succ_of_le (ih h))
  | case4 _ _ _ _ _ ih => exact Nat.le_succ_of_le (ih h)
  | case5 => simp at h
  | case6 _ _ _ _ _ ih => exact Nat.le_succ_of_le (ih h)
  | case7 _ _ _ _ _ _ _ _ ih => exact Nat.le_succ_of_le (ih h)
  | case8 => simp only [Option.some.injEq] at h; subst h; exact Nat.le_refl _

theorem length_lt_of_skipBlanks {cs rest : List Char} {c : Char} (h : skipBlanks cs = c :: rest) :
    rest.length < cs.length :=
  length_lt_of_dropWhile h

/-! ### Keys -/

/-- What a key may consist of without quotes. -/
def isKeyChar (c : Char) : Bool :=
  ('a' ≤ c && c ≤ 'z') || ('A' ≤ c && c ≤ 'Z') || ('0' ≤ c && c ≤ '9') || c == '_' || c == '-'

/-- One part of a key. -/
def keyPart? (cs : List Char) : Option (String × List Char) :=
  if cs.head? = some '"' ∨ cs.head? = some apostrophe then simpleString? cs
  else
    let word := cs.takeWhile isKeyChar
    if word.isEmpty then none else some (String.ofList word, cs.dropWhile isKeyChar)

/-- The parts of a key between points, and what follows it; there may be blanks around each part. -/
def keyPath? (cs : List Char) : Option (List String × List Char) :=
  match keyPart? (skipBlanks cs) with
  | none => none
  | some (part, rest) =>
    match skipBlanks rest with
    | '.' :: more =>
      if more.length < cs.length then
        (keyPath? more).map fun (parts, left) => (part :: parts, left)
      else none
    | left => some ([part], left)
termination_by cs.length

/-- How deep a document goes: keys have fewer parts than this, and brackets inside brackets are
    fewer. -/
def depthLimit : Nat := 80

/-- A key that is not too deep, and what follows it. -/
def key? (cs : List Char) : Option (List String × List Char) :=
  (keyPath? cs).filter fun (path, _) => path.length < depthLimit

/-- A key with the equals sign and the blanks after it. -/
def assignment? (cs : List Char) : Option (List String × List Char) :=
  match key? cs with
  | some (path, '=' :: rest) => some (path, skipBlanks rest)
  | _ => none

/-- Adds a member under the last part of a key, through the parts before it. -/
def insertAt (path : List String) (value : Toml) (members : Members) : Option Members :=
  match path.getLast? with
  | some key => insertDotted path.dropLast key value members
  | none => none

/-! ### Values -/

mutual

/-- Reads a value that begins at the front, with room for so many brackets inside one another. -/
def readValue (room : Nat) (cs : List Char) : Option (Reading Toml cs) :=
  match cs with
  | '[' :: rest =>
    if room = 0 then none
    else match readItems (room - 1) rest with
    | none => none
    | some ⟨(items, left), h⟩ => some ⟨(.array items, left), Nat.lt_succ_of_lt h⟩
  | '\x7b' :: rest =>
    if room = 0 then none
    else match closing : skipBlanks rest with
    | '\x7d' :: left =>
      some ⟨(.table .inline [], left), Nat.lt_succ_of_lt (length_lt_of_skipBlanks closing)⟩
    | _ => match readMembers (room - 1) [] rest with
      | none => none
      | some ⟨(members, left), h⟩ => some ⟨(.table .inline members, left), Nat.lt_succ_of_lt h⟩
  | _ => Reading.ofOption? _ (scalar? cs)
termination_by 2 * cs.length

/-- Reads the items of an array and its closing bracket; a comma may stand before the bracket. -/
def readItems (room : Nat) (cs : List Char) : Option (Reading (List Toml) cs) :=
  match filler : skipFiller? false cs with
  | none => none
  | some (']' :: left) => some ⟨([], left), length_skipFiller?_le filler⟩
  | some body =>
    have hBody : body.length ≤ cs.length := length_skipFiller?_le filler
    match readValue room body with
    | none => none
    | some ⟨(item, rest), used⟩ =>
      have hRest : rest.length < cs.length := Nat.lt_of_lt_of_le used hBody
      match filler' : skipFiller? false rest with
      | some (']' :: left) =>
        some ⟨([item], left), Nat.lt_trans (length_skipFiller?_le filler') hRest⟩
      | some (',' :: more) =>
        have hMore : more.length < cs.length :=
          Nat.lt_trans (length_skipFiller?_le filler') hRest
        match readItems room more with
        | none => none
        | some ⟨(items, left), h⟩ => some ⟨(item :: items, left), Nat.lt_trans h hMore⟩
      | _ => none
termination_by 2 * cs.length + 1

/-- Reads the members of a table in braces and its closing brace, all on one line. -/
def readMembers (room : Nat) (members : Members) (cs : List Char) :
    Option (Reading Members cs) :=
  match assignment? cs with
  | none => none
  | some (path, start) =>
    if hStart : start.length < cs.length then
      match readValue room start with
      | none => none
      | some ⟨(value, rest), used⟩ =>
        match insertAt path value members with
        | none => none
        | some members =>
          have hRest : rest.length < cs.length := Nat.lt_trans used hStart
          match next : skipBlanks rest with
          | '\x7d' :: left =>
            some ⟨(members, left), Nat.lt_trans (length_lt_of_skipBlanks next) hRest⟩
          | ',' :: more =>
            have hMore : more.length < cs.length :=
              Nat.lt_trans (length_lt_of_skipBlanks next) hRest
            match readMembers room members more with
            | none => none
            | some ⟨(members, left), h⟩ => some ⟨(members, left), Nat.lt_trans h hMore⟩
          | _ => none
    else none
termination_by 2 * cs.length + 1

end

/-! ### Lines -/

/-- The rest of a line after its statement: blanks, a comment, a line end or the end of the text. -/
def afterStatement? (cs : List Char) : Option (List Char) :=
  let rest := match skipBlanks cs with
    | '#' :: comment => comment.dropWhile isPlain
    | other => other
  if rest.isEmpty then some [] else afterLineEnd? rest

/-- What a document has defined so far, and the table that its last header opened. -/
structure Document where
  root : Members
  current : List String
deriving Inhabited

/-- The header at the front, after its first bracket. -/
def header? (document : Document) (cs : List Char) : Option (Document × List Char) :=
  match cs with
  | '[' :: rest => do
    let (path, rest) ← key? rest
    let rest ← afterWord? [']', ']'] rest
    return (⟨← appendTable path document.root, path⟩, rest)
  | rest => do
    let (path, rest) ← key? rest
    let rest ← afterWord? [']'] rest
    return (⟨← openTable path document.root, path⟩, rest)

/-- The member at the front. -/
def member? (document : Document) (cs : List Char) : Option (Document × List Char) := do
  let (path, start) ← assignment? cs
  let ⟨(value, rest), _⟩ ← readValue (depthLimit - 1) start
  let root ← modifyAt (insertAt path value) document.current document.root
  return (⟨root, document.current⟩, rest)

/-- The statement at the front of a line, and the lines after it. -/
def statement? (document : Document) (cs : List Char) : Option (Document × List Char) := do
  let (document, rest) ← match cs with
    | '[' :: rest => header? document rest
    | _ => member? document cs
  return (document, ← afterStatement? rest)

/-- Reads the statements of a document. -/
def readLines (document : Document) (cs : List Char) : Option Members :=
  match _filler : skipFiller? false cs with
  | none => none
  | some [] => some document.root
  | some (c :: start) =>
    match statement? document (c :: start) with
    | none => none
    | some (document, rest) =>
      if _h : rest.length < cs.length then readLines document rest else none
termination_by cs.length

/-- The root table of a document; a byte order mark before it is dropped. -/
def read? (document : String) : Option Members :=
  match document.toList with
  | '\ufeff' :: rest => readLines ⟨[], []⟩ rest
  | cs => readLines ⟨[], []⟩ cs

end Metrology.Toml
