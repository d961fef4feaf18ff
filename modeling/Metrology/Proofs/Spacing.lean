/-
Module: Metrology.Proofs.Spacing
Layer: Proofs
Purpose: Blanks between tokens. No lexeme goes on with a blank, and the lexer can start again at any
  token; so blanks that split no token only move the tokens behind them. Readers and evaluator use
  the places of tokens for nothing but the ranges in what they report, whether they succeed or fail.
  A formula therefore denotes the same however its tokens are spaced, or fails with the same error
  apart from its range.
Imports: Mathlib.Logic.Relation, Metrology.Proofs.ErrorLocalisation, Metrology.Proofs.GrammarFailure
Main exports: Token.Scans.insert, Fails.mapOffsets, Expr.ofTokens_mapOffsets, Error.bare,
  InsertsBlanks, InsertsBlanks.lex, Evaluator.bare_evaluate_of_lex, Evaluator.bare_evaluate_spaced
-/
import Mathlib.Logic.Relation
import Metrology.Proofs.ErrorLocalisation
import Metrology.Proofs.GrammarFailure

namespace Metrology

/-- Of two fronts of a text the longer one begins with the other. -/
theorem exists_gap_of_byteLength_le {front back front' back' : List Char}
    (same : front ++ back = front' ++ back') (longer : byteLength front' ≤ byteLength front) :
    ∃ gap, front = front' ++ gap ∧ back' = gap ++ back := by
  rcases List.append_eq_append_iff.1 same with ⟨gap, rfl, rfl⟩ | ⟨gap, rfl, rfl⟩
  · rw [byteLength_append] at longer
    obtain rfl : gap = [] := byteLength_eq_zero_iff.1 (by omega)
    exact ⟨[], by simp, rfl⟩
  · exact ⟨gap, rfl, rfl⟩

namespace Formula

/-! ### Blanks in a text -/

namespace Token

theorem goesOn_blank {d : Char} (blank : isBlank d = true) (hex : Bool) (kind : TokenKind)
    (last : Char) : goesOn hex kind last d = false := by
  simp only [isBlank, Bool.or_eq_true, beq_iff_eq] at blank
  rcases blank with (((rfl | rfl) | rfl) | rfl) | rfl <;> cases kind <;> rfl

/-- Blanks behind a lexeme, however far, leave it as it is. -/
theorem lexeme?_insert {c : Char} {more gap back blanks : List Char} {kind : TokenKind}
    (areBlank : ∀ c ∈ blanks, isBlank c = true)
    (found : lexeme? c (more ++ (gap ++ back)) = some (kind, more.length)) :
    lexeme? c (more ++ (gap ++ (blanks ++ back))) = some (kind, more.length) := by
  refine lexeme?_of_next found fun next mem => ?_
  cases gap with
  | cons _ _ => exact .inl mem
  | nil =>
      cases blanks with
      | nil => exact .inl mem
      | cons b _ =>
          obtain rfl : b = next := Option.some.inj mem
          exact .inr (goesOn_blank (areBlank b List.mem_cons_self))

@[simp] theorem bare_mapOffsets (move : Nat → Nat) (token : Token) :
    (token.mapOffsets move).bare = token.bare := rfl

theorem Scans.blanks {offset : Nat} {blanks cs : List Char} {tokens : List Token}
    (areBlank : ∀ c ∈ blanks, isBlank c = true)
    (h : Scans (offset + byteLength blanks) cs tokens) : Scans offset (blanks ++ cs) tokens := by
  induction blanks generalizing offset with
  | nil => exact h
  | cons c blanks ih =>
      obtain ⟨first, others⟩ := List.forall_mem_cons.1 areBlank
      rw [byteLength_cons, ← Nat.add_assoc] at h
      exact .blank first (ih others h)

/-- Blanks in front of a text only move its tokens. -/
theorem Scans.behind_blanks {offset : Nat} {blanks cs : List Char} {tokens : List Token}
    (h : Scans offset cs tokens) (areBlank : ∀ c ∈ blanks, isBlank c = true) :
    ∃ tokens', Scans offset (blanks ++ cs) tokens' ∧ tokens'.map bare = tokens.map bare := by
  have moved := @Scans.mapOffsets _ _ _ (· + byteLength blanks) h (by omega)
  exact ⟨_, .blanks areBlank moved, by simp [Function.comp_def]⟩

/-- Blanks that split no token leave the tokens as they are, apart from their places. -/
theorem Scans.insert {offset : Nat} {cs front back blanks : List Char} {tokens : List Token}
    (h : Scans offset cs tokens) (split : front ++ back = cs)
    (areBlank : ∀ c ∈ blanks, isBlank c = true)
    (between : ∀ token ∈ tokens, offset + byteLength front ≤ token.span.start ∨
      token.span.stop ≤ offset + byteLength front) :
    ∃ tokens', Scans offset (front ++ (blanks ++ back)) tokens' ∧
      tokens'.map bare = tokens.map bare := by
  induction h generalizing front with
  | finish =>
      obtain ⟨rfl, rfl⟩ := List.append_eq_nil_iff.1 split
      exact Scans.finish.behind_blanks areBlank
  | @blank offset c cs tokens isBlank others ih =>
      cases front with
      | nil =>
          cases split
          exact (Scans.blank isBlank others).behind_blanks areBlank
      | cons d front =>
          obtain ⟨rfl, rfl⟩ := List.cons.inj split
          rw [byteLength_cons, ← Nat.add_assoc] at between
          obtain ⟨tokens', scans, same⟩ := ih rfl between
          exact ⟨tokens', .blank isBlank scans, same⟩
  | @lexeme offset c more rest kind tokens visible found others ih =>
      cases front with
      | nil =>
          cases split
          exact (Scans.lexeme visible found others).behind_blanks areBlank
      | cons d front =>
          obtain ⟨rfl, behind⟩ := List.cons.inj split
          obtain ⟨here, between⟩ := List.forall_mem_cons.1 between
          -- the first token is not split, so it ends before the blanks
          have ends : byteLength more ≤ byteLength front := by
            have pos := d.utf8Size_pos
            simp only [byteLength_cons] at here
            omega
          obtain ⟨gap, rfl, rfl⟩ := exists_gap_of_byteLength_le behind ends
          rw [← List.cons_append, byteLength_append, ← Nat.add_assoc] at between
          obtain ⟨tokens', scans, same⟩ := ih rfl between
          have whole : d :: (more ++ gap) ++ (blanks ++ back) =
              d :: more ++ (gap ++ (blanks ++ back)) := by simp
          rw [whole]
          exact ⟨_, .lexeme visible (lexeme?_insert areBlank found) scans, congrArg (_ :: ·) same⟩

end Token

/-! ### Failures at another place -/

section Moved

variable {move : Nat → Nat} (mono : ∀ {m n}, m ≤ n → move m ≤ move n) (origin : move 0 = 0)

include origin in
theorem unexpected_mapOffsets (expected : Expected) (tokens : List Token) :
    unexpected expected (tokens.map (Token.mapOffsets move)) =
      (unexpected expected tokens).mapOffsets move := by
  cases tokens with
  | nil =>
      change Error.unexpectedEnd expected (.point 0) =
        .unexpectedEnd expected ⟨move 0, move 0⟩
      rw [origin]
      rfl
  | cons token rest =>
      change (if token.kind = .finish then _ else _ : Error) =
        Error.mapOffsets move (if token.kind = .finish then _ else _)
      split <;> rfl

include mono origin

/-- The readers fail alike at another place. -/
theorem Fails.mapOffsets {task : Task} {tokens : List Token} {cause : Error}
    (h : Fails task tokens cause) :
    Fails (task.mapOffsets move) (tokens.map (Token.mapOffsets move)) (cause.mapOffsets move) := by
  induction h with
  | nothing =>
      rw [← unexpected_mapOffsets origin]
      exact .nothing
  | @noOperand token rest kind =>
      rw [← unexpected_mapOffsets origin]
      exact @Fails.noOperand (token.mapOffsets move) _ kind
  | @literal token rest defect kind reading =>
      exact @Fails.literal (token.mapOffsets move) _ defect kind reading
  | minus kind _ ih => exact .minus kind ih
  | inside opens _ ih => exact .inside opens ih
  | @unclosed opening tokens rest e opens inner other =>
      rw [← unexpected_mapOffsets origin]
      refine @Fails.unclosed (opening.mapOffsets move) _ _ _ opens (inner.mapOffsets mono) ?_
      cases rest with
      | nil => nofun
      | cons token rest =>
          intro moved mem
          obtain rfl := Option.some.inj mem
          exact other token rfl
  | first _ ih => exact .first ih
  | more first _ ih => exact .more (first.mapOffsets mono) ih
  | right found reaches _ ih => exact .right found reaches ih
  | further found reaches operand _ ih =>
      rw [Task.mapOffsets, Expr.mapOffsets, mapOffsets_merge mono, ← Expr.span_mapOffsets,
        ← Expr.span_mapOffsets] at ih
      exact .further found reaches (operand.mapOffsets mono) ih

/-- Tokens at another place have the same tree there, or the same complaint. -/
theorem Expr.ofTokens_mapOffsets (tokens : List Token) :
    ofTokens (tokens.map (Token.mapOffsets move)) =
      ((ofTokens tokens).map (Expr.mapOffsets move)).mapError (Error.mapOffsets move) := by
  rw [ofTokens_eq, ofTokens_eq]
  cases run : Task.run (.level 1) tokens with
  | error cause =>
      have moved := ((fails_iff.2 run).mapOffsets mono origin).run_eq
      rw [Task.mapOffsets] at moved
      rw [moved]
      rfl
  | ok r =>
      obtain ⟨e, rest⟩ := r
      have moved := ((reads_iff.2 run).mapOffsets mono).run_eq
      rw [Task.mapOffsets] at moved
      rw [moved]
      change atEnd (e.mapOffsets move) (rest.map (Token.mapOffsets move)) =
        ((atEnd e rest).map (Expr.mapOffsets move)).mapError (Error.mapOffsets move)
      have complaint := unexpected_mapOffsets origin .operator rest
      cases rest with
      | nil => rfl
      | cons token rest =>
          rw [List.map_cons] at complaint ⊢
          rw [atEnd, atEnd, complaint]
          change (if token.kind = .finish then _ else _ : Except Error Expr) = _
          split <;> rfl

end Moved

/-! ### Spaced formulas -/

/-- The error with nothing in its range. -/
def Error.bare (err : Error) : Error := err.mapOffsets fun _ => 0

/-- The second formula is the first one with some blanks inserted: before the first token, between
    two tokens or behind the last one, so that no token is split. -/
def InsertsBlanks (formula formula' : String) : Prop :=
  ∃ front blanks back tokens, formula.toList = front ++ back ∧
    formula'.toList = front ++ (blanks ++ back) ∧ (∀ c ∈ blanks, Token.isBlank c = true) ∧
    Token.lex formula = .ok tokens ∧
    ∀ token ∈ tokens, byteLength front ≤ token.span.start ∨ token.span.stop ≤ byteLength front

/-- Inserted blanks leave the tokens as they are, apart from their places. -/
theorem InsertsBlanks.lex {formula formula' : String} (h : InsertsBlanks formula formula') :
    ∃ tokens tokens', Token.lex formula = .ok tokens ∧ Token.lex formula' = .ok tokens' ∧
      tokens'.map Token.bare = tokens.map Token.bare := by
  obtain ⟨front, blanks, back, tokens, whole, spaced, areBlank, lexed, between⟩ := h
  have scans : Token.Scans 0 formula.toList tokens := Token.scans_iff.2 lexed
  obtain ⟨tokens', scans', same⟩ := scans.insert whole.symm areBlank (by simpa using between)
  rw [← spaced] at scans'
  exact ⟨tokens, tokens', lexed, scans'.lexFrom_eq, same⟩

end Formula

namespace Evaluator

open Formula (Error Expr Token InsertsBlanks)

/-- Apart from ranges, the tokens of a formula decide what it denotes and how it fails. -/
theorem bare_evaluate_of_lex (e : Evaluator) {formula : String} {tokens : List Token}
    (lexed : Token.lex formula = .ok tokens) :
    (e.evaluate formula).mapError (Failure.map Error.bare) =
      ((Expr.ofTokens (tokens.map Token.bare)).mapError Failure.error).bind e.evaluateExpr := by
  have bared := @Expr.ofTokens_mapOffsets (fun _ => 0) (fun _ => Nat.le_refl 0) rfl tokens
  change Expr.ofTokens (tokens.map Token.bare) = _ at bared
  rw [bared, evaluate, Formula.parse_eq_of_lex lexed]
  cases Expr.ofTokens tokens with
  | error cause => rfl
  | ok expr => exact (evaluateExpr_mapOffsets expr).symm

/-- Blanks between tokens never matter: however often they are inserted in a formula that can be
    lexed, it denotes the same unit, or fails with the same error apart from its range. -/
theorem bare_evaluate_spaced (e : Evaluator) {formula formula' : String}
    (spaced : Relation.ReflTransGen InsertsBlanks formula formula') :
    (e.evaluate formula').mapError (Failure.map Error.bare) =
      (e.evaluate formula).mapError (Failure.map Error.bare) := by
  induction spaced with
  | refl => rfl
  | tail _ step ih =>
      obtain ⟨tokens, tokens', lexed, lexed', same⟩ := step.lex
      rw [bare_evaluate_of_lex e lexed', same, ← bare_evaluate_of_lex e lexed, ih]

/-- A blank on either side of an operator; the sign of the number is part of its token. -/
theorem bare_evaluate_spaced_product :
    Relation.ReflTransGen InsertsBlanks "m*2e-3" "m *\n2e-3" ∧
    (ofTable .defaults).evaluate "m *\n2e-3" =
      .ok ⟨.base .length, Decimal.toBinary .double false ⟨2, -3⟩⟩ := by
  have lexed : Token.lex "m*2e-3" = .ok [⟨.name, ⟨0, 1⟩, "m"⟩, ⟨.star, ⟨1, 2⟩, "*"⟩,
      ⟨.number, ⟨2, 6⟩, "2e-3"⟩, ⟨.finish, .point 6, ""⟩] := by decide +kernel
  have lexed' : Token.lex "m *2e-3" = .ok [⟨.name, ⟨0, 1⟩, "m"⟩, ⟨.star, ⟨2, 3⟩, "*"⟩,
      ⟨.number, ⟨3, 7⟩, "2e-3"⟩, ⟨.finish, .point 7, ""⟩] := by decide +kernel
  have first : InsertsBlanks "m*2e-3" "m *2e-3" :=
    ⟨['m'], [' '], "*2e-3".toList, _, rfl, rfl, List.forall_mem_singleton.2 rfl, lexed, by decide⟩
  have second : InsertsBlanks "m *2e-3" "m *\n2e-3" :=
    ⟨"m *".toList, ['\n'], "2e-3".toList, _, rfl, rfl, List.forall_mem_singleton.2 rfl, lexed',
      by decide⟩
  have spaced := (Relation.ReflTransGen.single first).tail second
  have before : (ofTable .defaults).evaluate "m*2e-3" =
      .ok ⟨.base .length, Decimal.toBinary .double false ⟨2, -3⟩⟩ := by
    have number : Literal.read "2e-3" = .ok (.real (Decimal.toBinary .double false ⟨2, -3⟩)) := by
      decide +kernel
    rw [evaluate_eq_of_parse (Formula.parse_of_lex_operation lexed rfl rfl rfl number rfl)]
    decide +kernel
  have same := bare_evaluate_spaced (ofTable .defaults) spaced
  rw [before] at same
  exact ⟨spaced, mapError_eq_ok_iff.1 same⟩

end Evaluator

end Metrology
