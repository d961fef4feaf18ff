/-
Module: Metrology.Proofs.GrammarFailure
Layer: Proofs
Purpose: How the readers of formulas fail. A failing run is a chain of calls down to the one that
  meets the token it cannot use; the relation has one case for each way that a call passes the
  failure of another one on, or finds it itself. So what all complaints have in common is an
  induction over the relation, as what all trees have in common is one over readings.
Imports: Metrology.Proofs.GrammarRun, Metrology.Proofs.Lexing
Main exports: Fails, fails_iff, Error.isSyntax, isSyntax_of_parse
-/
import Metrology.Proofs.GrammarRun
import Metrology.Proofs.Lexing

namespace Metrology.Formula

/-- The kinds of token that an operand can begin with. -/
def TokenKind.beginsOperand : TokenKind → Bool
  | .minus => true
  | .name => true
  | .number => true
  | .leftParen => true
  | _ => false

/-- `Fails task tokens cause`: the reader of the task complains about the tokens with `cause`. -/
inductive Fails : Task → List Token → Error → Prop where
  | nothing : Fails .operand [] (unexpected .operand [])
  | noOperand {token : Token} {rest : List Token} (kind : token.kind.beginsOperand = false) :
      Fails .operand (token :: rest) (unexpected .operand (token :: rest))
  | literal {token : Token} {rest : List Token} {defect : LiteralError}
      (kind : token.kind = .number) (reading : Literal.read token.text = .error defect) :
      Fails .operand (token :: rest) (.malformedLiteral token.text defect token.span)
  | minus {token : Token} {tokens : List Token} {cause : Error} (kind : token.kind = .minus)
      (inner : Fails .operand tokens cause) : Fails .operand (token :: tokens) cause
  | inside {opening : Token} {tokens : List Token} {cause : Error}
      (opens : opening.kind = .leftParen) (inner : Fails (.level 1) tokens cause) :
      Fails .operand (opening :: tokens) cause
  | unclosed {opening : Token} {tokens rest : List Token} {e : Expr}
      (opens : opening.kind = .leftParen) (inner : Reads (.level 1) tokens e rest)
      (other : ∀ token ∈ rest.head?, token.kind ≠ .rightParen) :
      Fails .operand (opening :: tokens) (unexpected .closing rest)
  | first {level : Nat} {tokens : List Token} {cause : Error}
      (inner : Fails .operand tokens cause) :
      Fails (.level level) tokens cause
  | more {level : Nat} {tokens middle : List Token} {left : Expr} {cause : Error}
      (first : Reads .operand tokens left middle) (inner : Fails (.chain level left) middle cause) :
      Fails (.level level) tokens cause
  | right {level : Nat} {left : Expr} {token : Token} {op : Operator} {tokens : List Token}
      {cause : Error} (found : token.kind.operator? = some op) (reaches : level ≤ op.level)
      (inner : Fails (.level (op.level + 1)) tokens cause) :
      Fails (.chain level left) (token :: tokens) cause
  | further {level : Nat} {left right : Expr} {token : Token} {op : Operator}
      {tokens middle : List Token} {cause : Error} (found : token.kind.operator? = some op)
      (reaches : level ≤ op.level) (operand : Reads (.level (op.level + 1)) tokens right middle)
      (inner : Fails (.chain level (.binary op left right (left.span.merge right.span))) middle
        cause) :
      Fails (.chain level left) (token :: tokens) cause

/-! ### The relation and the readers -/

theorem closeGroup_of_other {opening : Token} {e : Expr} {rest : List Token}
    (other : ∀ token ∈ rest.head?, token.kind ≠ .rightParen) :
    closeGroup opening e rest = .error (unexpected .closing rest) := by
  cases rest with
  | nil => rfl
  | cons closing rest => simp only [closeGroup, other closing rfl, if_false]

/-- Every failure is what its reader answers. -/
theorem Fails.run_eq {task : Task} {tokens : List Token} {cause : Error}
    (h : Fails task tokens cause) : task.run tokens = .error cause := by
  induction h with
  | nothing => exact Task.run_operand_nil
  | @noOperand token rest kind =>
      rw [Task.run_operand_cons]
      cases same : token.kind <;> simp only [same, TokenKind.beginsOperand] at kind ⊢ <;> cases kind
  | literal kind reading => simp only [Task.run_operand_cons, kind, reading]
  | minus kind _ ih => simp only [Task.run_operand_cons, kind, ih, Except.map]
  | inside opens _ ih => simp only [Task.run_operand_cons, opens, ih, Except.bind]
  | unclosed opens inner other =>
      simp only [Task.run_operand_cons, opens, inner.run_eq, Except.bind]
      exact closeGroup_of_other other
  | first _ ih => simp only [Task.run_level, ih, Except.bind]
  | more first _ ih => simp only [Task.run_level, first.run_eq, ih, Except.bind]
  | right found reaches _ ih =>
      simp only [Task.run_chain_of_operator found reaches, ih, Except.bind]
  | further found reaches operand _ ih =>
      simp only [Task.run_chain_of_operator found reaches, operand.run_eq, ih, Except.bind]

mutual

/-- A level reader that fails has a failure. -/
theorem fails_of_run_level {l : Nat} {tokens : List Token} {cause : Error}
    (h : Task.run (.level l) tokens = .error cause) : Fails (.level l) tokens cause := by
  rw [Task.run_level, bind_eq_error_iff] at h
  rcases h with failed | ⟨⟨left, middle⟩, first, failed⟩
  · exact .first (fails_of_run_operand failed)
  · have used : middle.length < tokens.length := Task.length_of_run_operand first
    exact .more (reads_iff.2 first) (fails_of_run_chain failed)
termination_by (tokens.length, 1)

/-- An operand reader that fails has a failure. -/
theorem fails_of_run_operand {tokens : List Token} {cause : Error}
    (h : Task.run .operand tokens = .error cause) : Fails .operand tokens cause := by
  cases tokens with
  | nil =>
      rw [Task.run_operand_nil] at h
      cases h
      exact .nothing
  | cons token tokens =>
      rw [Task.run_operand_cons] at h
      split at h
      · next kind => exact .minus kind (fails_of_run_operand (map_eq_error_iff.1 h))
      · cases h
      · next kind =>
          split at h
          · next reading => cases h; exact .literal kind reading
          · cases h
      · next kind =>
          rcases bind_eq_error_iff.1 h with failed | ⟨⟨e, rest⟩, inner, close⟩
          · exact .inside kind (fails_of_run_level failed)
          · by_cases other : ∀ closing ∈ rest.head?, closing.kind ≠ .rightParen
            · rw [closeGroup_of_other other] at close
              cases close
              exact .unclosed kind (reads_iff.2 inner) other
            · cases rest with
              | nil => exact absurd (fun closing mem => by cases mem) other
              | cons closing rest =>
                  have closes : closing.kind = .rightParen := by
                    by_cases closes : closing.kind = .rightParen
                    · exact closes
                    · exact absurd (fun found mem => by cases mem; exact closes) other
                  simp only [closeGroup, closes, if_true, reduceCtorEq] at close
      · next noMinus noName noNumber noParen =>
          cases h
          refine .noOperand ?_
          cases same : token.kind <;> simp_all [TokenKind.beginsOperand]
termination_by (tokens.length, 0)

/-- A chain reader that fails has a failure. -/
theorem fails_of_run_chain {l : Nat} {left : Expr} {tokens : List Token} {cause : Error}
    (h : Task.run (.chain l left) tokens = .error cause) :
    Fails (.chain l left) tokens cause := by
  rcases stops_or_operator l tokens with stops | ⟨token, after, op, shape, found, reaches⟩
  · rw [Task.run_chain_of_stops stops] at h
    cases h
  · have shorter : after.length < tokens.length := by simp [shape]
    rw [shape, Task.run_chain_of_operator found reaches, bind_eq_error_iff] at h
    rw [shape]
    rcases h with failed | ⟨⟨right, middle⟩, operand, failed⟩
    · exact .right found reaches (fails_of_run_level failed)
    · have used : middle.length < after.length := Task.length_of_run_level operand
      exact .further found reaches (reads_iff.2 operand) (fails_of_run_chain failed)
termination_by (tokens.length, 0)

end

theorem fails_iff {task : Task} {tokens : List Token} {cause : Error} :
    Fails task tokens cause ↔ task.run tokens = .error cause := by
  constructor
  · exact Fails.run_eq
  · intro h
    cases task with
    | level l => exact fails_of_run_level h
    | operand => exact fails_of_run_operand h
    | chain l left => exact fails_of_run_chain h

/-! ### Syntax errors -/

/-- The errors that a text can have before anything in it is evaluated. -/
def Error.isSyntax : Error → Bool
  | malformedLiteral .. => true
  | unexpectedCharacter .. => true
  | unexpectedToken .. => true
  | unexpectedEnd .. => true
  | _ => false

theorem isSyntax_unexpected (expected : Expected) (tokens : List Token) :
    (unexpected expected tokens).isSyntax = true := by
  cases tokens with
  | nil => rfl
  | cons token rest =>
      simp only [unexpected]
      split <;> rfl

theorem Fails.isSyntax {task : Task} {tokens : List Token} {cause : Error}
    (h : Fails task tokens cause) : cause.isSyntax = true := by
  induction h with
  | nothing => exact isSyntax_unexpected _ _
  | noOperand _ => exact isSyntax_unexpected _ _
  | literal _ _ => rfl
  | unclosed _ _ _ => exact isSyntax_unexpected _ _
  | minus _ _ ih => exact ih
  | inside _ _ ih => exact ih
  | first _ ih => exact ih
  | more _ _ ih => exact ih
  | right _ _ _ ih => exact ih
  | further _ _ _ _ ih => exact ih

theorem Token.isSyntax_of_lexFrom {offset : Nat} {cs : List Char} {cause : Error}
    (h : lexFrom offset cs = .error cause) : cause.isSyntax = true := by
  fun_induction lexFrom offset cs with
  | case1 => cases h
  | case2 offset c rest blank ih => exact ih h
  | case3 => cases h; rfl
  | case4 => cases h
  | case5 =>
      rename_i ih
      cases h
      exact ih ‹_›

/-- What keeps a formula from having a tree is an error of its syntax. -/
theorem isSyntax_of_parse {source : String} {cause : Error}
    (h : Expr.parse source = .error cause) : cause.isSyntax = true := by
  unfold Expr.parse at h
  split at h
  · next failed =>
      cases h
      exact Token.isSyntax_of_lexFrom failed
  · rw [ofTokens_eq] at h
    rcases bind_eq_error_iff.1 h with failed | ⟨⟨e, rest⟩, _, ended⟩
    · exact (fails_iff.2 failed).isSyntax
    · cases rest with
      | nil => cases ended
      | cons token rest =>
          simp only [atEnd] at ended
          split at ended
          · cases ended
          · cases ended
            exact isSyntax_unexpected _ _

end Metrology.Formula
