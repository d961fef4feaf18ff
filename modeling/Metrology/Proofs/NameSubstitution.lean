/-
Module: Metrology.Proofs.NameSubstitution
Layer: Proofs
Purpose: Names replaced by parenthesised formulas. A name is an operand wherever it stands, and so
  is a formula in parentheses; so the readers go the same way over the replaced tokens, read the
  tree with the names replaced, and fail at the same token if they fail. A name is folded like the
  formula that denotes what it stands for. Ranges are of no interest here and are left out of the
  replaced tokens; without names to replace, this is all that happens to them.
Imports: Metrology.Proofs.ErrorLocalisation, Metrology.Proofs.GrammarFailure,
  Metrology.Proofs.NameResolution
Main exports: Body, Token.substitute, Expr.substitute, Reads.substitute, Fails.substitute,
  Expr.ofTokens_substitute, Reads.names_append, exists_token_of_mem_names, Evaluator.Means,
  Evaluator.fold_substitute, Evaluator.evaluateExpr_substitute
-/
import Metrology.Proofs.ErrorLocalisation
import Metrology.Proofs.GrammarFailure
import Metrology.Proofs.NameResolution

namespace Metrology

open Formula (Error Expr Operator)

namespace Formula

/-! ### Replaced names -/

/-- What may stand for a name: tokens that are read as a tree before anything but an operator. -/
structure Body where
  tokens : List Token
  tree : Expr
  reads : ∀ after, Stops 1 after → Reads (.level 1) (tokens ++ after) tree after

variable (bodies : String → Option Body)

/-- What stands for a token. -/
def Token.body? (token : Token) : Option Body :=
  if token.kind = .name then bodies token.text else none

/-- The token itself, or the tokens of its body in parentheses. -/
def Token.substitute (token : Token) : List Token :=
  match token.body? bodies with
  | some body => ⟨.leftParen, .point 0, "("⟩ :: (body.tokens ++ [⟨.rightParen, .point 0, ")"⟩])
  | none => [token.bare]

/-- The tree with the trees of their bodies for the names. -/
def Expr.substitute : Expr → Expr
  | .name text _ =>
    match bodies text with
    | some body => body.tree.withSpan (.point 0)
    | none => .name text (.point 0)
  | .number value _ => .number value (.point 0)
  | .neg operand _ => .neg operand.substitute (.point 0)
  | .binary op left right _ => .binary op left.substitute right.substitute (.point 0)

def Task.substitute : Task → Task
  | level l => level l
  | operand => operand
  | chain l left => chain l (left.substitute bodies)

variable {bodies}

theorem Token.substitute_of_kind {token : Token} (kind : token.kind ≠ .name) :
    token.substitute bodies = [token.bare] := by
  rw [substitute, body?, if_neg kind]

@[simp] theorem Expr.span_substitute (e : Expr) : (e.substitute bodies).span = .point 0 := by
  cases e with
  | name text range =>
      rw [substitute]
      cases bodies text with
      | none => rfl
      | some body => exact Expr.span_withSpan _ _
  | _ => rfl

/-- The range that a group gives to the tree inside it is left out too. -/
theorem Expr.substitute_withSpan (e : Expr) (range : Span) :
    (e.withSpan range).substitute bodies = (e.substitute bodies).withSpan (.point 0) := by
  cases e with
  | name text span =>
      rw [withSpan, substitute, substitute]
      cases bodies text with
      | none => rfl
      | some body =>
          change body.tree.withSpan _ = (body.tree.withSpan _).withSpan _
          cases body.tree <;> rfl
  | _ => rfl

/-- Nothing is left of a tree's ranges, and nothing else is changed without names to replace. -/
theorem Expr.substitute_none (e : Expr) : e.substitute (fun _ => none) = e.bare := by
  induction e with
  | name text span => rfl
  | number value span => rfl
  | neg operand span ih => rw [substitute, ih]; rfl
  | binary op left right span ihLeft ihRight => rw [substitute, ihLeft, ihRight]; rfl

theorem Token.flatMap_substitute_none (tokens : List Token) :
    tokens.flatMap (substitute fun _ => none) = tokens.map bare := by
  have alone : substitute (fun _ => none) = fun token => [token.bare] := by
    funext token
    unfold substitute body?
    split <;> simp_all
  rw [alone, List.map_eq_flatMap]

/-! ### Readings -/

/-- The first token keeps its kind, or a parenthesis is there instead of a name. -/
theorem Token.head?_flatMap_substitute {token : Token} {rest : List Token} :
    ∃ first more, (token :: rest).flatMap (substitute bodies) = first :: more ∧
      (first = token.bare ∨ token.kind = .name ∧ first.kind = .leftParen) := by
  rw [List.flatMap_cons, substitute]
  cases found : token.body? bodies with
  | none => exact ⟨_, _, rfl, .inl rfl⟩
  | some body =>
      refine ⟨_, _, rfl, .inr ⟨?_, rfl⟩⟩
      rw [body?] at found
      split at found
      · assumption
      · cases found

theorem Stops.substitute {level : Nat} {tokens : List Token} (h : Stops level tokens) :
    Stops level (tokens.flatMap (Token.substitute bodies)) := by
  cases tokens with
  | nil => trivial
  | cons token rest =>
      obtain ⟨first, more, whole, rfl | ⟨_, paren⟩⟩ :=
        @Token.head?_flatMap_substitute bodies token rest
      · rw [whole]
        exact h
      · rw [whole]
        exact stops_of_no_operator (by rw [paren]; rfl) level more

theorem Token.flatMap_substitute_cons {token : Token} (kind : token.kind ≠ .name)
    (rest : List Token) :
    (token :: rest).flatMap (substitute bodies) =
      token.bare :: rest.flatMap (substitute bodies) := by
  rw [List.flatMap_cons, substitute_of_kind kind, List.singleton_append]

theorem Token.kind_ne_name_of_operator {token : Token} {op : Operator}
    (found : token.kind.operator? = some op) : token.kind ≠ .name := by
  intro name
  rw [name] at found
  cases found

/-- The readers read the tree with its names replaced. -/
theorem Reads.substitute {task : Task} {tokens rest : List Token} {e : Expr}
    (h : Reads task tokens e rest) :
    Reads (task.substitute bodies) (tokens.flatMap (Token.substitute bodies))
      (e.substitute bodies) (rest.flatMap (Token.substitute bodies)) := by
  induction h with
  | @name token rest kind =>
      rw [List.flatMap_cons, Token.substitute, Token.body?, if_pos kind, Expr.substitute]
      cases bodies token.text with
      | none => exact @Reads.name token.bare _ kind
      | some body =>
          have closes (after : List Token) : Stops 1 (⟨.rightParen, .point 0, ")"⟩ :: after) :=
            stops_of_no_operator rfl 1 after
          have inner := body.reads _ (closes (rest.flatMap (Token.substitute bodies)))
          rw [List.cons_append, List.append_assoc]
          exact @Reads.group ⟨.leftParen, .point 0, "("⟩ ⟨.rightParen, .point 0, ")"⟩ _ _ _
            rfl rfl inner
  | @number token rest value kind reading =>
      rw [Token.flatMap_substitute_cons (kind ▸ nofun)]
      exact @Reads.number token.bare _ _ kind reading
  | @minus token tokens rest e kind _ ih =>
      rw [Token.flatMap_substitute_cons (kind ▸ nofun)]
      have read := @Reads.minus token.bare _ _ _ kind ih
      rwa [Expr.span_substitute] at read
  | @group opening closing tokens rest e opens closes _ ih =>
      rw [Token.flatMap_substitute_cons (closes ▸ nofun)] at ih
      rw [Token.flatMap_substitute_cons (opens ▸ nofun)]
      rw [Expr.substitute_withSpan]
      exact @Reads.group opening.bare closing.bare _ _ _ opens closes ih
  | level _ _ ihFirst ihMore => exact .level ihFirst ihMore
  | stop stops => exact .stop stops.substitute
  | @step l left right e token op tokens middle rest found reaches _ _ ihOperand ihMore =>
      rw [Token.flatMap_substitute_cons (Token.kind_ne_name_of_operator found)]
      refine @Reads.step _ _ _ _ token.bare op _ _ _ found reaches ihOperand ?_
      rw [Expr.span_substitute, Expr.span_substitute]
      exact ihMore

/-! ### Failures -/

/-- A complaint about the same kind of token is the same kind of complaint. -/
theorem code_unexpected_substitute (bodies : String → Option Body) (expected : Expected)
    (tokens : List Token) :
    (unexpected expected (tokens.flatMap (Token.substitute bodies))).code =
      (unexpected expected tokens).code := by
  cases tokens with
  | nil => rfl
  | cons token rest =>
      obtain ⟨first, more, whole, rfl | ⟨name, paren⟩⟩ :=
        @Token.head?_flatMap_substitute bodies token rest
      · rw [whole, unexpected, unexpected]
        change (if token.kind = .finish then _ else _ : Error).code = _
        split <;> rfl
      · rw [whole, unexpected, unexpected, name, paren]
        rfl

/-- A token that is no name is there after all names have been replaced. -/
theorem Token.of_head?_flatMap_substitute {tokens : List Token} {kind : TokenKind}
    (noName : kind ≠ .name) (noParen : kind ≠ .leftParen) :
    (∀ token ∈ (tokens.flatMap (substitute bodies)).head?, token.kind ≠ kind) ↔
      ∀ token ∈ tokens.head?, token.kind ≠ kind := by
  cases tokens with
  | nil => rfl
  | cons token rest =>
      obtain ⟨first, more, whole, rfl | ⟨name, paren⟩⟩ :=
        @Token.head?_flatMap_substitute bodies token rest
      · rw [whole]
        simp [bare, mapOffsets]
      · rw [whole]
        simp [name, paren, Ne.symm noName, Ne.symm noParen]

/-- Where the readers fail, they fail in the same way once names are replaced. -/
theorem Fails.substitute {task : Task} {tokens : List Token} {cause : Error}
    (h : Fails task tokens cause) :
    ∃ cause', Fails (task.substitute bodies) (tokens.flatMap (Token.substitute bodies)) cause' ∧
      cause'.code = cause.code := by
  induction h with
  | nothing => exact ⟨_, .nothing, rfl⟩
  | @noOperand token rest kind =>
      have noName : token.kind ≠ .name := by
        intro name
        rw [name] at kind
        cases kind
      refine ⟨_, ?_, code_unexpected_substitute bodies .operand (token :: rest)⟩
      rw [Token.flatMap_substitute_cons noName]
      exact @Fails.noOperand token.bare _ kind
  | @literal token rest defect kind reading =>
      rw [Token.flatMap_substitute_cons (kind ▸ nofun)]
      exact ⟨_, @Fails.literal token.bare _ _ kind reading, rfl⟩
  | @minus token tokens cause kind _ ih =>
      obtain ⟨cause', inner, same⟩ := ih
      rw [Token.flatMap_substitute_cons (kind ▸ nofun)]
      exact ⟨cause', @Fails.minus token.bare _ _ kind inner, same⟩
  | @inside opening tokens cause opens _ ih =>
      obtain ⟨cause', inner, same⟩ := ih
      rw [Token.flatMap_substitute_cons (opens ▸ nofun)]
      exact ⟨cause', @Fails.inside opening.bare _ _ opens inner, same⟩
  | @unclosed opening tokens rest e opens inner other =>
      refine ⟨_, ?_, code_unexpected_substitute bodies .closing rest⟩
      rw [Token.flatMap_substitute_cons (opens ▸ nofun)]
      exact @Fails.unclosed opening.bare _ _ _ opens inner.substitute
        ((Token.of_head?_flatMap_substitute (by decide) (by decide)).2 other)
  | first _ ih =>
      obtain ⟨cause', inner, same⟩ := ih
      exact ⟨cause', .first inner, same⟩
  | more first _ ih =>
      obtain ⟨cause', inner, same⟩ := ih
      exact ⟨cause', .more first.substitute inner, same⟩
  | @right l left token op tokens cause found reaches _ ih =>
      obtain ⟨cause', inner, same⟩ := ih
      rw [Token.flatMap_substitute_cons (Token.kind_ne_name_of_operator found)]
      exact ⟨cause', @Fails.right _ _ token.bare op _ _ found reaches inner, same⟩
  | @further l left right token op tokens middle cause found reaches operand _ ih =>
      obtain ⟨cause', inner, same⟩ := ih
      rw [Token.flatMap_substitute_cons (Token.kind_ne_name_of_operator found)]
      refine ⟨cause', @Fails.further _ _ _ token.bare op _ _ _ found reaches operand.substitute ?_,
        same⟩
      rw [Expr.span_substitute, Expr.span_substitute]
      exact inner

/-- A token that is left over is left over as well. -/
theorem code_atEnd_substitute (e : Expr) (rest : List Token) :
    (atEnd (e.substitute bodies) (rest.flatMap (Token.substitute bodies))).mapError Error.code =
      ((atEnd e rest).map (Expr.substitute bodies)).mapError Error.code := by
  cases rest with
  | nil => rfl
  | cons token rest =>
      have complaint := code_unexpected_substitute bodies .operator (token :: rest)
      obtain ⟨first, more, whole, rfl | ⟨name, paren⟩⟩ :=
        @Token.head?_flatMap_substitute bodies token rest
      · rw [whole] at complaint ⊢
        by_cases finish : token.kind = .finish
        · simp [atEnd, finish, Token.bare, Token.mapOffsets, Except.map]
        · have other : token.bare.kind ≠ .finish := finish
          simp [atEnd, finish, other, Except.map, complaint]
      · rw [whole] at complaint ⊢
        simp [atEnd, name, paren, Except.map, complaint]

/-- Names replaced in the tokens are replaced in the tree, and make no difference to whether there
    is one. -/
theorem Expr.ofTokens_substitute (tokens : List Token) :
    (ofTokens (tokens.flatMap (Token.substitute bodies))).mapError Error.code =
      ((ofTokens tokens).map (Expr.substitute bodies)).mapError Error.code := by
  rw [ofTokens_eq, ofTokens_eq]
  cases run : Task.run (.level 1) tokens with
  | error cause =>
      obtain ⟨cause', fails, same⟩ := @Fails.substitute bodies _ _ _ (fails_iff.2 run)
      have replaced : Task.run (.level 1) _ = _ := fails.run_eq
      rw [replaced]
      exact congrArg Except.error same
  | ok r =>
      have reads := @Reads.substitute bodies _ _ _ _ (reads_iff.2 run)
      have replaced : Task.run (.level 1) _ = _ := reads.run_eq
      rw [replaced]
      exact code_atEnd_substitute r.1 r.2

/-! ### Names of trees -/

/-- The names among tokens, in their order. -/
def Token.names (tokens : List Token) : List String :=
  (tokens.filter fun token => token.kind = .name).map text

/-- The names that a task has been handed. -/
def Task.names : Task → List String
  | level _ => []
  | operand => []
  | chain _ left => left.names

theorem Token.names_cons_of_kind {token : Token} (kind : token.kind ≠ .name) (rest : List Token) :
    names (token :: rest) = names rest := by
  rw [names, List.filter_cons_of_neg (by simpa using kind), names]

@[simp] theorem Expr.names_withSpan (e : Expr) (range : Span) :
    (e.withSpan range).names = e.names := by
  cases e <;> rfl

/-- The names of a tree are those among the tokens that it is read from, in their order. -/
theorem Reads.names_append {task : Task} {tokens rest : List Token} {e : Expr}
    (h : Reads task tokens e rest) :
    task.names ++ Token.names tokens = e.names ++ Token.names rest := by
  induction h with
  | @name token rest kind =>
      rw [Token.names, List.filter_cons_of_pos (by simpa using kind)]
      rfl
  | number kind _ => rw [Token.names_cons_of_kind (kind ▸ nofun)]; rfl
  | minus kind _ ih => rw [Token.names_cons_of_kind (kind ▸ nofun)]; exact ih
  | group opens closes _ ih =>
      rw [Token.names_cons_of_kind (closes ▸ nofun)] at ih
      rw [Token.names_cons_of_kind (opens ▸ nofun), Expr.names_withSpan]
      exact ih
  | level _ _ ihFirst ihMore => exact ihFirst.trans ihMore
  | stop _ => rfl
  | @step l left right e token op tokens middle rest found reaches _ _ ihOperand ihMore =>
      rw [Token.names_cons_of_kind (Token.kind_ne_name_of_operator found)]
      calc left.names ++ Token.names tokens = left.names ++ (right.names ++ Token.names middle) :=
            congrArg (left.names ++ ·) ihOperand
        _ = (left.names ++ right.names) ++ Token.names middle := (List.append_assoc ..).symm
        _ = e.names ++ Token.names rest := ihMore

/-- The names of a formula's tree are name tokens of the formula. -/
theorem exists_token_of_mem_names {source name : String} {e : Expr}
    (parsed : Expr.parse source = .ok e) (mem : name ∈ e.names) :
    ∃ tokens, Token.lex source = .ok tokens ∧
      ∃ token ∈ tokens, token.kind = .name ∧ token.text = name := by
  obtain ⟨tokens, rest, lexed, reads, -⟩ := parse_eq_ok_iff.1 parsed
  have names : Token.names tokens = e.names ++ Token.names rest := reads.names_append
  have among : name ∈ Token.names tokens := names ▸ List.mem_append_left _ mem
  obtain ⟨token, named, isText⟩ := List.mem_map.1 among
  obtain ⟨inside, kind⟩ := List.mem_filter.1 named
  exact ⟨tokens, lexed, token, inside, of_decide_eq_true kind, isText⟩

end Formula

/-! ### Replaced names in the fold -/

namespace Operand

/-- Where an operation takes place makes no difference to what kind of error it has. -/
theorem Reports.code_eq {α : Type} {f : Span → Except Error α} (h : Reports f)
    (span span' : Span) : (f span').mapError Error.code = (f span).mapError Error.code := by
  rw [h span span']
  cases f span with
  | ok a => rfl
  | error err => cases err <;> rfl

theorem code_apply (op : Operator) (left right : Operand)
    (exponentSpan span exponentSpan' span' : Span) :
    (apply op exponentSpan' span' left right).mapError Error.code =
      (apply op exponentSpan span left right).mapError Error.code := by
  rcases apply_cases op left right with ⟨found, fails⟩ | ⟨f, reports, same⟩
  · rw [fails, fails]
    rfl
  · rw [same, same]
    exact reports.code_eq span span'

end Operand

namespace Evaluator

variable {inner outer : Evaluator} {bodies : String → Option Formula.Body}

/-- A name stands for what its body denotes, or else for the same in both evaluators. -/
def Means (bodies : String → Option Formula.Body) (inner outer : Evaluator) (name : String) :
    Prop :=
  match bodies name with
  | some body => ∃ u, inner.fold body.tree = .ok (.unit u) ∧ outer.resolve? name = some (.exact u)
  | none => inner.resolve? name = outer.resolve? name

/-- Kinds of errors are kept when errors become failures. -/
theorem code_mapError {α : Type} {r r' : Except Error α}
    (h : r'.mapError Error.code = r.mapError Error.code) :
    (r'.mapError Failure.error).mapError (Failure.map Error.code) =
      (r.mapError Failure.error).mapError (Failure.map Error.code) := by
  cases r <;> cases r' <;> simp_all [Failure.map]

/-- What a tree denotes does not depend on its range. -/
theorem code_fold_withSpan {e : Evaluator} (expr : Expr) (range : Span) :
    (e.fold (expr.withSpan range)).mapError (Failure.map Error.code) =
      (e.fold expr).mapError (Failure.map Error.code) := by
  cases expr with
  | name text span =>
      rw [Expr.withSpan, fold, fold]
      cases e.resolve? text <;> rfl
  | number value span => rfl
  | neg operand span =>
      rw [Expr.withSpan, fold_neg, fold_neg]
      exact mapError_bind_congr rfl fun value =>
        code_mapError ((Operand.reports_negate value).code_eq span range)
  | binary op left right span =>
      rw [Expr.withSpan, fold_binary, fold_binary]
      exact mapError_bind_congr rfl fun l => mapError_bind_congr rfl fun r =>
        code_mapError (Operand.code_apply op l r right.span span right.span range)

/-- A tree with replaced names denotes what the tree denotes where the names are bound, or fails in
    the same way. -/
theorem fold_substitute {expr : Expr} (means : ∀ name ∈ expr.names, Means bodies inner outer name) :
    (inner.fold (expr.substitute bodies)).mapError (Failure.map Error.code) =
      (outer.fold expr).mapError (Failure.map Error.code) := by
  induction expr with
  | name text span =>
      have meant := means text (List.mem_singleton.2 rfl)
      rw [Expr.substitute]
      unfold Means at meant
      cases replaced : bodies text with
      | none =>
          rw [replaced] at meant
          rw [← @fold_congr inner outer (.name text span) (by simpa [Expr.names] using meant)]
          exact code_fold_withSpan (.name text span) (.point 0)
      | some body =>
          rw [replaced] at meant
          obtain ⟨u, denoted, bound⟩ := meant
          have whole : outer.fold (.name text span) = .ok (.unit u) :=
            fold_name_eq_ok_iff.2 ⟨_, u, bound, rfl, rfl⟩
          rw [whole, ← denoted]
          exact code_fold_withSpan body.tree (.point 0)
  | number value span => rfl
  | neg operand span ih =>
      rw [Expr.substitute, fold_neg, fold_neg]
      exact mapError_bind_congr (ih means) fun value =>
        code_mapError ((Operand.reports_negate value).code_eq span (.point 0))
  | binary op left right span ihLeft ihRight =>
      have sameLeft := ihLeft fun name mem => means name (List.mem_append_left _ mem)
      have sameRight := ihRight fun name mem => means name (List.mem_append_right _ mem)
      rw [Expr.substitute, fold_binary, fold_binary]
      exact mapError_bind_congr sameLeft fun l => mapError_bind_congr sameRight fun r =>
        code_mapError (Operand.code_apply op l r right.span span _ (.point 0))

theorem evaluateExpr_substitute {expr : Expr}
    (means : ∀ name ∈ expr.names, Means bodies inner outer name) :
    (inner.evaluateExpr (expr.substitute bodies)).mapError (Failure.map Error.code) =
      (outer.evaluateExpr expr).mapError (Failure.map Error.code) := by
  rw [evaluateExpr_eq, evaluateExpr_eq]
  exact mapError_bind_congr (fold_substitute means) fun o =>
    code_mapError ((Operand.reports_toUnit o).code_eq expr.span _)

end Evaluator

end Metrology
