/-
Module: Metrology.Formula.Grammar
Layer: Formulas
Purpose: Reading a tree from tokens. Sums bind less than products and products less than powers;
  every chain of one level, powers included, groups to the left; a minus sign before an operand
  binds tightest. Each reader hands back the tokens that it leaves, with the proof that it has used
  some.
Imports: Metrology.Formula.Token, Metrology.Formula.Expr, Metrology.Reading
Main exports: readLevel, readOperand, readChain, Expr.ofTokens, Expr.parse
-/
import Metrology.Formula.Token
import Metrology.Formula.Expr
import Metrology.Reading

namespace Metrology.Formula

/-- The binary operator that a token kind stands for. -/
def TokenKind.operator? : TokenKind → Option Operator
  | .plus => some .add
  | .minus => some .sub
  | .star => some .mul
  | .slash => some .div
  | .caret => some .pow
  | _ => none

/-- The complaint about the token at the front. -/
def unexpected (expected : Expected) : List Token → Error
  | [] => .unexpectedEnd expected (.point 0)
  | token :: _ =>
    if token.kind = .finish then .unexpectedEnd expected token.span
    else .unexpectedToken expected token.text token.span

mutual

/-- Reads an operand and the operators of at least the given level that follow it. -/
def readLevel (level : Nat) (tokens : List Token) : Except Error (Reading Expr tokens) :=
  match readOperand tokens with
  | .error e => .error e
  | .ok ⟨(left, rest), used⟩ =>
    match readChain level left rest with
    | .error e => .error e
    | .ok ⟨result, kept⟩ => .ok ⟨result, Nat.lt_of_le_of_lt kept used⟩
termination_by (tokens.length, 1)

/-- Reads minus signs before a name, a number or a parenthesised formula. -/
def readOperand (tokens : List Token) : Except Error (Reading Expr tokens) :=
  match tokens with
  | [] => .error (unexpected .operand [])
  | token :: rest =>
    match token.kind with
    | .minus =>
      match readOperand rest with
      | .error e => .error e
      | .ok ⟨(operand, left), used⟩ =>
        .ok ⟨(.neg operand (token.span.merge operand.span), left),
          by simp only [List.length_cons] at used ⊢; omega⟩
    | .name => .ok ⟨(.name token.text token.span, rest), by simp⟩
    | .number =>
      match Literal.read token.text with
      | .error defect => .error (.malformedLiteral token.text defect token.span)
      | .ok value => .ok ⟨(.number value token.span, rest), by simp⟩
    | .leftParen =>
      match readLevel 1 rest with
      | .error e => .error e
      | .ok ⟨(inner, left), used⟩ =>
        match left with
        | [] => .error (unexpected .closing [])
        | close :: after =>
          if close.kind = .rightParen then
            .ok ⟨(inner.withSpan (token.span.merge close.span), after),
              by simp only [List.length_cons] at used ⊢; omega⟩
          else .error (unexpected .closing (close :: after))
    | _ => .error (unexpected .operand (token :: rest))
termination_by (tokens.length, 0)

/-- Extends a tree to the right while operators of at least the given level follow. The right
    operand takes only operators that bind tighter, so that a chain groups to the left. -/
def readChain (level : Nat) (left : Expr) (tokens : List Token) :
    Except Error (Continuation Expr tokens) :=
  match tokens with
  | [] => .ok ⟨(left, []), Nat.le_refl _⟩
  | token :: rest =>
    match token.kind.operator? with
    | none => .ok ⟨(left, token :: rest), Nat.le_refl _⟩
    | some op =>
      if op.level < level then .ok ⟨(left, token :: rest), Nat.le_refl _⟩
      else match readLevel (op.level + 1) rest with
        | .error e => .error e
        | .ok ⟨(right, after), used⟩ =>
          have shorter : after.length < rest.length := used
          match readChain level (.binary op left right (left.span.merge right.span)) after with
          | .error e => .error e
          | .ok ⟨result, kept⟩ =>
            .ok ⟨result, by simp only [List.length_cons]; omega⟩
termination_by (tokens.length, 0)

end

/-- The tree of a whole token list. -/
def Expr.ofTokens (tokens : List Token) : Except Error Expr :=
  match readLevel 1 tokens with
  | .error e => .error e
  | .ok ⟨(expr, rest), _⟩ =>
    match rest with
    | [] => .ok expr
    | token :: after =>
      if token.kind = .finish then .ok expr else .error (unexpected .operator (token :: after))

/-- The tree of a formula. -/
def Expr.parse (source : String) : Except Error Expr :=
  match Token.lex source with
  | .error e => .error e
  | .ok tokens => Expr.ofTokens tokens

end Metrology.Formula
