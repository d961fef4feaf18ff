/-
Module: Metrology.Proofs.Lexing
Layer: Proofs
Purpose: What the lexer does at each kind of lexeme, and where it stops. A lexeme that is followed
  by no character of a name or a number becomes one token, and the characters after it are lexed as
  if they stood alone; so a text is lexed piece by piece. In general a lexeme ends where the next
  character does not go on with it, and it looks no further. No lexeme is a `finish` token.
Imports: Metrology.Formula.Token, Metrology.Proofs.Outcome
Main exports: takeWhile_append_eq, dropWhile_append_eq, Token.Boundary, Token.lexFrom_operator,
  Token.lexFrom_name, Token.lexFrom_decimal, Token.goesOn, Token.lexeme?_append_iff,
  Token.lexeme?_of_next
-/
import Metrology.Formula.Token
import Metrology.Proofs.Outcome

namespace Metrology

/-! ### Texts up to a boundary -/

section Boundary

variable {p : Char → Bool} {front rest : List Char}

theorem takeWhile_append_eq (inside : ∀ c ∈ front, p c = true)
    (boundary : ∀ c ∈ rest.head?, p c = false) : (front ++ rest).takeWhile p = front := by
  rw [List.takeWhile_append_of_pos inside]
  cases rest with
  | nil => simp
  | cons c rest => simp [boundary c rfl]

theorem dropWhile_append_eq (inside : ∀ c ∈ front, p c = true)
    (boundary : ∀ c ∈ rest.head?, p c = false) : (front ++ rest).dropWhile p = rest := by
  rw [List.dropWhile_append_of_pos inside]
  cases rest with
  | nil => rfl
  | cons c rest => rw [List.dropWhile_cons_of_neg (by simp [boundary c rfl])]

end Boundary

namespace Formula.Token

theorem lexFrom_nil (offset : Nat) : lexFrom offset [] = .ok [⟨.finish, .point offset, ""⟩] := by
  rw [lexFrom]

theorem lexFrom_blank {c : Char} (blank : isBlank c = true) (offset : Nat) (rest : List Char) :
    lexFrom offset (c :: rest) = lexFrom (offset + c.utf8Size) rest := by
  rw [lexFrom, if_pos blank]

/-- A lexeme becomes one token before the tokens of what follows it. -/
theorem lexFrom_lexeme {c : Char} {kind : TokenKind} {more rest : List Char}
    (visible : isBlank c = false) (found : lexeme? c (more ++ rest) = some (kind, more.length))
    (offset : Nat) :
    lexFrom offset (c :: more ++ rest) =
      (lexFrom (offset + byteLength (c :: more)) rest).map
        (⟨kind, ⟨offset, offset + byteLength (c :: more)⟩, String.ofList (c :: more)⟩ :: ·) := by
  rw [List.cons_append, lexFrom]
  simp only [visible, Bool.false_eq_true, if_false, found, List.take_left, List.drop_left]
  cases lexFrom (offset + byteLength (c :: more)) rest <;> rfl

/-! ### Lexemes -/

/-- Nothing that could go on with a name or a number stands at the front. -/
def Boundary (rest : List Char) : Prop := ∀ c ∈ rest.head?, isNumberChar c = false

theorem boundary_nil : Boundary [] := by intro c mem; cases mem

theorem boundary_cons {c : Char} (h : isNumberChar c = false) (rest : List Char) :
    Boundary (c :: rest) := by
  intro other mem
  cases mem
  exact h

theorem isNumberChar_of_isNameChar {c : Char} (h : isNameChar c = true) :
    isNumberChar c = true := by
  simp only [isNameChar, isNumberChar, Bool.or_eq_true] at h ⊢
  rcases h with letter | underscore
  · exact .inl (.inl (.inl letter))
  · exact .inl (.inr underscore)

theorem isNumberChar_of_isDigit {c : Char} (h : isDigit c = true) : isNumberChar c = true := by
  simp only [isNumberChar, Bool.or_eq_true]
  exact .inl (.inl (.inr h))

theorem isBlank_of_isNumberChar {c : Char} (h : isNumberChar c = true) : isBlank c = false := by
  rw [Bool.eq_false_iff]
  intro blank
  simp only [isBlank, Bool.or_eq_true, beq_iff_eq] at blank
  rcases blank with (((rfl | rfl) | rfl) | rfl) | rfl <;> exact absurd h (by decide)

theorem operatorKind?_class {c : Char} {kind : TokenKind} (h : operatorKind? c = some kind) :
    isBlank c = false ∧ isNumberChar c = false := by
  unfold operatorKind? at h
  split at h <;> first | exact ⟨by decide, by decide⟩ | cases h

/-- An operator character is a token of its own, whatever follows. -/
theorem lexFrom_operator {c : Char} {kind : TokenKind} (h : operatorKind? c = some kind)
    (offset : Nat) (rest : List Char) :
    lexFrom offset (c :: rest) =
      (lexFrom (offset + byteLength [c]) rest).map
        (⟨kind, ⟨offset, offset + byteLength [c]⟩, String.ofList [c]⟩ :: ·) := by
  obtain ⟨visible, noNumber⟩ := operatorKind?_class h
  have noName : isNameChar c = false := by
    rw [Bool.eq_false_iff]
    intro name
    rw [isNumberChar_of_isNameChar name] at noNumber
    cases noNumber
  have noDigit : isDigit c = false := by
    rw [Bool.eq_false_iff]
    intro digit
    rw [isNumberChar_of_isDigit digit] at noNumber
    cases noNumber
  have found : lexeme? c (([] : List Char) ++ rest) = some (kind, ([] : List Char).length) := by
    simp [lexeme?, noName, noDigit, h]
  exact lexFrom_lexeme visible found offset

theorem takeWhile_isNameChar {name rest : List Char} (all : ∀ c ∈ name, isNameChar c = true)
    (boundary : Boundary rest) : (name ++ rest).takeWhile isNameChar = name := by
  refine takeWhile_append_eq all fun c mem => ?_
  rw [Bool.eq_false_iff]
  intro isName
  have noNumber := boundary c mem
  rw [isNumberChar_of_isNameChar isName] at noNumber
  cases noNumber

/-- A name before a boundary is one token. -/
theorem lexFrom_name {c : Char} {more rest : List Char}
    (all : ∀ x ∈ c :: more, isNameChar x = true) (boundary : Boundary rest) (offset : Nat) :
    lexFrom offset (c :: more ++ rest) =
      (lexFrom (offset + byteLength (c :: more)) rest).map
        (⟨.name, ⟨offset, offset + byteLength (c :: more)⟩, String.ofList (c :: more)⟩ :: ·) := by
  obtain ⟨first, others⟩ := List.forall_mem_cons.1 all
  refine lexFrom_lexeme (isBlank_of_isNumberChar (isNumberChar_of_isNameChar first)) ?_ offset
  simp only [lexeme?, first, if_true, takeWhile_isNameChar others boundary]

/-- What a plain decimal consists of: digits and points. -/
def isDecimalChar (c : Char) : Bool := isDigit c || c == '.'

theorem isNumberChar_of_isDecimalChar {c : Char} (h : isDecimalChar c = true) :
    isNumberChar c = true := by
  simp only [isDecimalChar, isNumberChar, Bool.or_eq_true] at h ⊢
  rcases h with digit | point
  · exact .inl (.inl (.inr digit))
  · exact .inr point

/-- A digit or point is no exponent mark, so no sign goes on with a plain decimal. -/
theorem isMark_of_isDecimalChar {c : Char} (h : isDecimalChar c = true) (hex : Bool) :
    isMark hex c = false := by
  rw [Bool.eq_false_iff]
  intro mark
  cases hex <;> simp only [isMark, Bool.false_eq_true, if_false, if_true, Bool.or_eq_true,
    beq_iff_eq] at mark <;> rcases mark with rfl | rfl <;> exact absurd h (by decide)

theorem numberLength_decimal {last : Char} {text rest : List Char} (hex : Bool)
    (first : isDecimalChar last = true) (all : ∀ c ∈ text, isDecimalChar c = true)
    (boundary : Boundary rest) : numberLength hex last (text ++ rest) = text.length := by
  induction text generalizing last with
  | nil =>
      cases rest with
      | nil => rfl
      | cons c rest =>
          simp [numberLength, boundary c rfl, isMark_of_isDecimalChar first hex]
  | cons d text ih =>
      obtain ⟨plain, others⟩ := List.forall_mem_cons.1 all
      simp [numberLength, isNumberChar_of_isDecimalChar plain, ih plain others]

theorem isNameChar_of_isDigit {c : Char} (h : isDigit c = true) : isNameChar c = false := by
  simp only [isDigit, Bool.and_eq_true, decide_eq_true_eq, Char.le_def] at h
  simp only [isNameChar, isLetter, Bool.or_eq_false_iff, Bool.and_eq_false_iff,
    decide_eq_false_iff_not, Char.le_def, beq_eq_false_iff_ne]
  refine ⟨⟨.inl ?_, .inl ?_⟩, ?_⟩
  · intro le
    exact absurd (UInt32.le_trans le h.2) (by decide)
  · intro le
    exact absurd (UInt32.le_trans le h.2) (by decide)
  · rintro rfl
    exact absurd h.2 (by decide)

/-- A plain decimal before a boundary is one number token. -/
theorem lexFrom_decimal {c : Char} {more rest : List Char} (digit : isDigit c = true)
    (all : ∀ x ∈ more, isDecimalChar x = true) (boundary : Boundary rest) (offset : Nat) :
    lexFrom offset (c :: more ++ rest) =
      (lexFrom (offset + byteLength (c :: more)) rest).map
        (⟨.number, ⟨offset, offset + byteLength (c :: more)⟩, String.ofList (c :: more)⟩ :: ·) := by
  have first : isDecimalChar c = true := by rw [isDecimalChar, digit, Bool.true_or]
  refine lexFrom_lexeme (isBlank_of_isNumberChar (isNumberChar_of_isDecimalChar first)) ?_ offset
  simp only [lexeme?, isNameChar_of_isDigit digit, digit, Bool.false_eq_true, if_false, if_true,
    numberLength_decimal _ first all boundary]

/-! ### Where lexemes end -/

/-- How many of the characters go on one after the other, each told what stands before it. -/
def scanLength (goesOn : Char → Char → Bool) (last : Char) : List Char → Nat
  | [] => 0
  | c :: cs => if goesOn last c then scanLength goesOn c cs + 1 else 0

/-- The scan ends behind a text exactly when it takes in all of the text alone and the next
    character does not go on with it. -/
theorem scanLength_append_iff {goesOn : Char → Char → Bool} {last : Char} {text rest : List Char} :
    scanLength goesOn last (text ++ rest) = text.length ↔
      scanLength goesOn last text = text.length ∧
        ∀ d ∈ rest.head?, goesOn (text.getLastD last) d = false := by
  induction text generalizing last with
  | nil =>
      cases rest with
      | nil => simp [scanLength]
      | cons d rest => cases h : goesOn last d <;> simp [scanLength, h]
  | cons c text ih =>
      rw [List.cons_append, scanLength, scanLength, List.getLastD_cons]
      cases goesOn last c with
      | false => simp
      | true => simp [ih]

theorem length_takeWhile_eq_scanLength (p : Char → Bool) (last : Char) (cs : List Char) :
    (cs.takeWhile p).length = scanLength (fun _ c => p c) last cs := by
  induction cs generalizing last with
  | nil => rfl
  | cons c cs ih => cases h : p c <;> simp [scanLength, h, ih c]

theorem numberLength_eq_scanLength (hex : Bool) (last : Char) (cs : List Char) :
    numberLength hex last cs =
      scanLength (fun last c => isNumberChar c || (isSign c && isMark hex last)) last cs := by
  induction cs generalizing last with
  | nil => rfl
  | cons c cs ih => rw [numberLength, scanLength, ih]

/-- The kind of the token that a character begins. -/
def kindOf? (c : Char) : Option TokenKind :=
  if isNameChar c then some .name else if isDigit c then some .number else operatorKind? c

/-- Whether a character goes on with a token. -/
def goesOn (hex : Bool) : TokenKind → Char → Char → Bool
  | .name, _, c => isNameChar c
  | .number, last, c => isNumberChar c || (isSign c && isMark hex last)
  | _, _, _ => false

/-- Operators are neither names nor numbers. -/
theorem operatorKind?_ne {c : Char} {kind : TokenKind} (h : operatorKind? c = some kind) :
    kind ≠ .name ∧ kind ≠ .number := by
  unfold operatorKind? at h
  split at h <;> cases h <;> exact ⟨by decide, by decide⟩

theorem kindOf?_eq_name_iff {c : Char} : kindOf? c = some .name ↔ isNameChar c = true := by
  unfold kindOf?
  cases name : isNameChar c with
  | true => simp
  | false =>
      cases digit : isDigit c with
      | true => simp
      | false => simpa using fun operator => (operatorKind?_ne operator).1 rfl

theorem kindOf?_eq_number_iff {c : Char} : kindOf? c = some .number ↔ isDigit c = true := by
  unfold kindOf?
  cases digit : isDigit c with
  | true => simp [isNameChar_of_isDigit digit]
  | false =>
      cases name : isNameChar c with
      | true => simp
      | false => simpa using fun operator => (operatorKind?_ne operator).2 rfl

/-- The first character of a lexeme decides its kind, and the lexeme is as long as can be. -/
theorem lexeme?_eq (c : Char) (rest : List Char) :
    lexeme? c rest = (kindOf? c).map fun kind =>
      (kind, scanLength (goesOn (announcesHex c rest) kind) c rest) := by
  unfold lexeme? kindOf?
  split
  · rw [length_takeWhile_eq_scanLength _ c]
    rfl
  · split
    · rw [numberLength_eq_scanLength]
      rfl
    · cases operator : operatorKind? c with
      | none => rfl
      | some kind =>
          obtain ⟨noName, noNumber⟩ := operatorKind?_ne operator
          have alone : goesOn (announcesHex c rest) kind = fun _ _ => false := by
            funext last d
            cases kind <;> first | rfl | contradiction
          cases rest <;> simp [alone, scanLength]

/-- What announces a hexadecimal number is part of it, so the text of a lexeme decides how it goes
    on. -/
theorem scanLength_goesOn_append {c : Char} {text rest : List Char} {kind : TokenKind}
    (kinds : kindOf? c = some kind) :
    scanLength (goesOn (announcesHex c (text ++ rest)) kind) c (text ++ rest) = text.length ↔
      scanLength (goesOn (announcesHex c text) kind) c (text ++ rest) = text.length := by
  cases text with
  | cons d text => rfl
  | nil =>
      cases rest with
      | nil => rfl
      | cons d rest =>
          have first (hex : Bool) : goesOn hex kind c d = goesOn false kind c d := by
            cases kind with
            | number =>
                have digit : isDecimalChar c = true := by
                  rw [isDecimalChar, kindOf?_eq_number_iff.1 kinds, Bool.true_or]
                simp only [goesOn, isMark_of_isDecimalChar digit]
            | _ => rfl
          simp only [List.nil_append, scanLength, first (announcesHex c (d :: rest)),
            first (announcesHex c [])]
          cases goesOn false kind c d <;> simp

/-- A lexeme ends behind a text exactly when it is all of the text alone and the next character does
    not go on with it. -/
theorem lexeme?_append_iff {c : Char} {text rest : List Char} {kind : TokenKind} :
    lexeme? c (text ++ rest) = some (kind, text.length) ↔
      lexeme? c text = some (kind, text.length) ∧
        ∀ d ∈ rest.head?, goesOn (announcesHex c text) kind (text.getLastD c) d = false := by
  simp only [lexeme?_eq, Option.map_eq_some_iff, Prod.mk.injEq]
  constructor
  · rintro ⟨_, kinds, rfl, length⟩
    obtain ⟨alone, ends⟩ := scanLength_append_iff.1 ((scanLength_goesOn_append kinds).1 length)
    exact ⟨⟨_, kinds, rfl, alone⟩, ends⟩
  · rintro ⟨⟨_, kinds, rfl, alone⟩, ends⟩
    exact ⟨_, kinds, rfl,
      (scanLength_goesOn_append kinds).2 (scanLength_append_iff.2 ⟨alone, ends⟩)⟩

/-- A lexeme ends where it did if the next character is the same, or one that goes on with no
    lexeme. -/
theorem lexeme?_of_next {c : Char} {text rest rest' : List Char} {kind : TokenKind}
    (h : lexeme? c (text ++ rest) = some (kind, text.length))
    (next : ∀ d ∈ rest'.head?, d ∈ rest.head? ∨ ∀ hex kind last, goesOn hex kind last d = false) :
    lexeme? c (text ++ rest') = some (kind, text.length) := by
  obtain ⟨alone, ends⟩ := lexeme?_append_iff.1 h
  refine lexeme?_append_iff.2 ⟨alone, fun d mem => ?_⟩
  rcases next d mem with same | apart
  · exact ends d same
  · exact apart _ _ _

/-- A lexeme looks at the next character only. -/
theorem lexeme?_of_head? {c : Char} {text rest rest' : List Char} {kind : TokenKind}
    (h : lexeme? c (text ++ rest) = some (kind, text.length))
    (same : ∀ d ∈ rest'.head?, d ∈ rest.head?) :
    lexeme? c (text ++ rest') = some (kind, text.length) :=
  lexeme?_of_next h fun d mem => .inl (same d mem)

/-- The `finish` token is not a lexeme of any text. -/
theorem lexeme?_kind_ne_finish {c : Char} {rest : List Char} {kind : TokenKind} {more : Nat}
    (h : lexeme? c rest = some (kind, more)) : kind ≠ .finish := by
  unfold lexeme? at h
  split at h
  · cases h; decide
  · split at h
    · cases h; decide
    · obtain ⟨found, operator, same⟩ := Option.map_eq_some_iff.1 h
      cases same
      unfold operatorKind? at operator
      split at operator <;> first | (cases operator; decide) | cases operator

end Formula.Token

end Metrology
