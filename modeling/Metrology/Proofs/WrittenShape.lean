/-
Module: Metrology.Proofs.WrittenShape
Layer: Proofs
Purpose: Shapes written out with parentheses around every operation, and read back. The text is
  lexed piece by piece, since a parenthesis or a blank ends every name and number; its tokens are
  derivable as the shape itself, because a parenthesised operation is an operand of every operator.
  So the formula has a tree, and the tree has the shape that was written.
Imports: Metrology.Proofs.GrammarDerivation, Metrology.Proofs.DecimalLiteral
Main exports: Shape.renderChars, Shape.Written, Shape.written_decimalDigits, Shape.Written.lexes,
  Shape.Written.parse
-/
import Metrology.Proofs.GrammarDerivation
import Metrology.Proofs.DecimalLiteral

namespace Metrology.Formula

/-! ### Lexing piece by piece -/

namespace Token

/-- Wherever the text ends before a boundary, its tokens stand before those of what follows. -/
def Lexes (offset : Nat) (text : List Char) (tokens : List Token) : Prop :=
  ∀ rest, Boundary rest →
    lexFrom offset (text ++ rest) =
      (lexFrom (offset + byteLength text) rest).map (tokens ++ ·)

namespace Lexes

variable {offset : Nat} {text more : List Char} {tokens after : List Token}

theorem nil (offset : Nat) : Lexes offset [] [] := by
  intro rest _
  change lexFrom offset rest = (lexFrom offset rest).map ([] ++ ·)
  cases lexFrom offset rest <;> rfl

/-- A text of name characters is a name token. -/
theorem name {text : String} (nonempty : text.toList ≠ [])
    (all : ∀ c ∈ text.toList, isNameChar c = true) (offset : Nat) :
    ∃ token, token.kind = .name ∧ token.text = text ∧ Lexes offset text.toList [token] := by
  obtain ⟨c, more, chars⟩ := List.exists_cons_of_ne_nil nonempty
  refine ⟨⟨.name, ⟨offset, offset + byteLength text.toList⟩, text⟩, rfl, rfl, ?_⟩
  intro rest boundary
  have whole := lexFrom_name (chars ▸ all) boundary offset
  rw [← chars, String.ofList_toList] at whole
  exact whole

/-- A plain decimal that begins with a digit is a number token. -/
theorem decimal {text : String} {c : Char} {more : List Char} (chars : text.toList = c :: more)
    (digit : isDigit c = true) (all : ∀ x ∈ more, isDecimalChar x = true) (offset : Nat) :
    ∃ token, token.kind = .number ∧ token.text = text ∧ Lexes offset text.toList [token] := by
  refine ⟨⟨.number, ⟨offset, offset + byteLength text.toList⟩, text⟩, rfl, rfl, ?_⟩
  intro rest boundary
  have whole := lexFrom_decimal digit all boundary offset
  rw [← chars, String.ofList_toList] at whole
  exact whole

/-- An operator character is a token of its own before whatever follows. -/
theorem operator {c : Char} {kind : TokenKind} (h : operatorKind? c = some kind) (offset : Nat) :
    ∃ token, token.kind = kind ∧ ∀ {text tokens}, Lexes (offset + byteLength [c]) text tokens →
      Lexes offset (c :: text) (token :: tokens) := by
  refine ⟨⟨kind, ⟨offset, offset + byteLength [c]⟩, String.ofList [c]⟩, rfl, ?_⟩
  intro text tokens next rest boundary
  rw [List.cons_append, lexFrom_operator h, next rest boundary]
  simp only [byteLength_cons, byteLength_nil, Nat.add_zero, Nat.add_assoc]
  cases lexFrom (offset + (c.utf8Size + byteLength text)) rest <;> rfl

theorem blank {c : Char} (h : isBlank c = true)
    (next : Lexes (offset + c.utf8Size) text tokens) : Lexes offset (c :: text) tokens := by
  intro rest boundary
  rw [List.cons_append, lexFrom_blank h, next rest boundary, byteLength_cons, Nat.add_assoc]

/-- Two pieces, the second of which begins with a boundary. -/
theorem append {c : Char} (front : Lexes offset text tokens) (apart : isNumberChar c = false)
    (back : Lexes (offset + byteLength text) (c :: more) after) :
    Lexes offset (text ++ c :: more) (tokens ++ after) := by
  intro rest boundary
  have inner : Boundary (c :: more ++ rest) := boundary_cons apart _
  rw [List.append_assoc, front _ inner, back rest boundary, byteLength_append, Nat.add_assoc]
  cases lexFrom (offset + (byteLength text + byteLength (c :: more))) rest <;>
    simp [Except.map]

/-- Parentheses around a piece are tokens around its tokens. -/
theorem parenthesized (inner : Lexes (offset + byteLength ['(']) text tokens) :
    ∃ opening closing, opening.kind = .leftParen ∧ closing.kind = .rightParen ∧
      Lexes offset ('(' :: (text ++ [')'])) (opening :: tokens ++ [closing]) := by
  obtain ⟨opening, opens, before⟩ := @operator '(' .leftParen rfl offset
  obtain ⟨closing, closes, last⟩ :=
    @operator ')' .rightParen rfl (offset + byteLength ['('] + byteLength text)
  have closed := inner.append (by decide) (last (nil _))
  exact ⟨opening, closing, opens, closes, before closed⟩

/-- A text that stands alone ends in a boundary. -/
theorem lex_eq (h : Lexes 0 text tokens) :
    lex (String.ofList text) = .ok (tokens ++ [⟨.finish, .point (byteLength text), ""⟩]) := by
  have whole := h [] boundary_nil
  rw [lexFrom_nil, List.append_nil, Nat.zero_add] at whole
  rw [lex, String.toList_ofList, whole]
  rfl

end Lexes

end Token

/-- The character of an operator is the token that stands for it. -/
theorem Operator.operatorKind?_symbol (op : Operator) :
    ∃ kind, Token.operatorKind? op.symbol = some kind ∧ kind.operator? = some op := by
  cases op <;> exact ⟨_, rfl, rfl⟩

/-! ### Written shapes -/

namespace Shape

/-- The text with parentheses around every operation, and blanks around binary operators. -/
def renderChars : Shape → List Char
  | name text => text.toList
  | number text => text.toList
  | neg operand => '(' :: '-' :: (operand.renderChars ++ [')'])
  | binary op left right =>
    '(' :: (left.renderChars ++ ' ' :: op.symbol :: ' ' :: (right.renderChars ++ [')']))

/-- Shapes that can be written out: names are names, and numbers are plain decimals that are
    literals. -/
inductive Written : Shape → Prop where
  | name {text : String} (nonempty : text.toList ≠ [])
      (all : ∀ c ∈ text.toList, Token.isNameChar c = true) : Written (.name text)
  | number {text : String} {c : Char} {more : List Char} {value : Literal}
      (chars : text.toList = c :: more) (digit : Token.isDigit c = true)
      (all : ∀ x ∈ more, Token.isDecimalChar x = true) (reading : Literal.read text = .ok value) :
      Written (.number text)
  | neg {operand : Shape} (inner : Written operand) : Written (.neg operand)
  | binary {op : Operator} {left right : Shape} (writtenLeft : Written left)
      (writtenRight : Written right) : Written (.binary op left right)

/-- Whole numbers below the limit of literals can be written out. -/
theorem written_decimalDigits {n : Nat} (h : n < Literal.wholeLimit) :
    Written (.number (String.ofList (decimalDigits n))) := by
  have all : ∀ c ∈ decimalDigits n, Token.isDigit c = true := by
    intro c mem
    have digit := isDigit_of_mem_decimalDigits mem
    simpa [Token.isDigit, Char.isDigit, Char.le_def] using digit
  obtain ⟨c, more, digits⟩ := List.exists_cons_of_ne_nil (l := decimalDigits n) Nat.toDigits_ne_nil
  rw [digits] at all
  obtain ⟨first, others⟩ := List.forall_mem_cons.1 all
  refine .number (by rw [String.toList_ofList, digits]) first ?_ (Literal.read_decimalDigits h)
  intro x mem
  rw [Token.isDecimalChar, others x mem, Bool.true_or]

open Token (Lexes)

/-- A written shape is lexed into tokens that the grammar derives as that shape. -/
theorem Written.lexes {shape : Shape} (h : Written shape) (offset : Nat) :
    ∃ tokens, Lexes offset shape.renderChars tokens ∧ Derives .primary tokens shape ∧
      NumbersReadable tokens := by
  induction h generalizing offset with
  | name nonempty all =>
      obtain ⟨token, kind, rfl, lexed⟩ := Lexes.name nonempty all offset
      refine ⟨[token], lexed, .name kind, ?_⟩
      simp [numbersReadable_cons, numbersReadable_nil, kind]
  | @number text c more value chars digit all reading =>
      obtain ⟨token, kind, rfl, lexed⟩ := Lexes.decimal chars digit all offset
      refine ⟨[token], lexed, .number kind, ?_⟩
      simp [numbersReadable_cons, numbersReadable_nil, reading]
  | @neg operand _ ih =>
      obtain ⟨minus, kind, before⟩ := @Lexes.operator '-' .minus rfl (offset + byteLength ['('])
      obtain ⟨tokens, lexed, derived, readable⟩ :=
        ih (offset + byteLength ['('] + byteLength ['-'])
      obtain ⟨opening, closing, opens, closes, whole⟩ := (before lexed).parenthesized
      have negated : Derives (.ofLevel 4) (minus :: tokens) (.neg operand) :=
        .negation kind (.bare derived)
      refine ⟨_, whole, .group opens closes (negated.loosen (Nat.le_refl 1) (by decide)), ?_⟩
      simp [numbersReadable_cons, numbersReadable_append, numbersReadable_nil, readable, kind,
        opens, closes]
  | @binary op left right _ _ ihLeft ihRight =>
      obtain ⟨kind, symbol, found⟩ := op.operatorKind?_symbol
      obtain ⟨front, lexedLeft, derivedLeft, readableLeft⟩ := ihLeft (offset + byteLength ['('])
      obtain ⟨token, same, joins⟩ := Lexes.operator symbol
        (offset + byteLength ['('] + byteLength left.renderChars + ' '.utf8Size)
      obtain ⟨back, lexedRight, derivedRight, readableRight⟩ :=
        ihRight (offset + byteLength ['('] + byteLength left.renderChars + ' '.utf8Size +
          byteLength [op.symbol] + ' '.utf8Size)
      have joined := lexedLeft.append (by decide) (.blank rfl (joins (.blank rfl lexedRight)))
      obtain ⟨opening, closing, opens, closes, whole⟩ := joined.parenthesized
      have reached : token.kind.operator? = some op := by rw [same, found]
      have noNumber : token.kind ≠ .number := by
        intro number
        rw [number] at reached
        cases reached
      -- a primary is derived at every level, so it is an operand on both sides
      have leftOperand : Derives (.ofLevel 4) front left := .bare derivedLeft
      have rightOperand : Derives (.ofLevel 4) back right := .bare derivedRight
      have chain : Derives (.ofLevel op.level) (front ++ token :: back) (.binary op left right) :=
        (leftOperand.loosen op.level_pos (Nat.le_succ_of_le op.level_le)).extend reached
          (rightOperand.loosen (Nat.le_add_left 1 _) (Nat.succ_le_succ op.level_le))
      refine ⟨_, by simpa [renderChars] using whole,
        .group opens closes (chain.loosen (Nat.le_refl 1) op.level_pos), ?_⟩
      simp [numbersReadable_cons, numbersReadable_append, numbersReadable_nil, readableLeft,
        readableRight, noNumber, opens, closes]

/-- A written shape is the formula of a tree that has this shape. -/
theorem Written.parse {shape : Shape} (h : Written shape) :
    ∃ e, Expr.parse (String.ofList shape.renderChars) = .ok e ∧ shape.Fits e := by
  obtain ⟨tokens, lexed, derived, readable⟩ := h.lexes 0
  have operand : Derives (.ofLevel 4) tokens shape := .bare derived
  exact parse_eq_ok_of_derives lexed.lex_eq rfl readable
    (operand.loosen (Nat.le_refl 1) (by decide))

end Shape

end Metrology.Formula
