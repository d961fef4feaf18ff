/-
Module: Metrology.Proofs.Inlining
Layer: Proofs
Purpose: Definitions inlined in the text. A name token can be replaced in the text by a formula in
  parentheses: no lexeme goes on with a parenthesis, so all other tokens stay what they are. The
  replaced text is then read as the tree with the formula's tree for the name, and denotes what the
  text denotes where the name is bound to the formula's unit. Names that are a prefix before the
  replaced name are the exception, since they would stand for a multiple of it.
Imports: Metrology.Proofs.DefinitionReach
Main exports: inlineChars, inline, Token.Scans.before_closing, Token.bare_lexFrom_parenthesized,
  Token.code_lexFrom_inlineChars, exists_body_of_parse, code_parse_inline,
  Evaluator.evaluate_inline
-/
import Metrology.Proofs.DefinitionReach

namespace Metrology

open Formula (Error Expr)

namespace Formula

/-! ### Replaced text -/

/-- The characters with a text in parentheses for every name token of the given name. -/
def inlineChars (name : String) (body : List Char) : List Char → List Char
  | [] => []
  | c :: rest =>
    match Token.lexeme? c rest with
    | none => c :: inlineChars name body rest
    | some (kind, more) =>
      let text := c :: rest.take more
      let after := inlineChars name body (rest.drop more)
      if kind = .name ∧ String.ofList text = name then '(' :: (body ++ ')' :: after)
      else text ++ after
termination_by cs => cs.length
decreasing_by
  · simp
  · simp only [List.length_drop, List.length_cons]; omega

/-- A formula with a text in parentheses for every name token of the given name. -/
def inline (name body formula : String) : String :=
  String.ofList (inlineChars name body.toList formula.toList)

example : inline "x" "m/s" "2*xx^x" = "2*xx^(m/s)" := by decide +kernel

/-- The only name to replace. -/
def only (name : String) (body : Body) (other : String) : Option Body :=
  if other = name then some body else none

/-! ### The tokens of replaced text -/

namespace Token

theorem isBlank_of_lexeme? {c : Char} {rest : List Char} {found : TokenKind × Nat}
    (h : lexeme? c rest = some found) : isBlank c = false := by
  rw [lexeme?_eq, Option.map_eq_some_iff] at h
  obtain ⟨kind, kinds, -⟩ := h
  unfold kindOf? at kinds
  split at kinds
  · next isName => exact isBlank_of_isNumberChar (isNumberChar_of_isNameChar isName)
  split at kinds
  · next digit => exact isBlank_of_isNumberChar (isNumberChar_of_isDigit digit)
  · exact (operatorKind?_class kinds).1

theorem lexFrom_of_lexeme?_eq_none {c : Char} {rest : List Char} (h : lexeme? c rest = none)
    (offset : Nat) : lexFrom offset (c :: rest) =
      if isBlank c then lexFrom (offset + c.utf8Size) rest
      else .error (.unexpectedCharacter c ⟨offset, offset + c.utf8Size⟩) := by
  rw [lexFrom]
  simp only [h]

/-- No lexeme goes on with a parenthesis. -/
theorem goesOn_paren {c : Char} (paren : c = '(' ∨ c = ')') (hex : Bool) (kind : TokenKind)
    (last : Char) : goesOn hex kind last c = false := by
  rcases paren with rfl | rfl <;> cases kind <;> rfl

/-- The tokens of a text are the same before a closing parenthesis. -/
theorem Scans.before_closing {offset stop : Nat} {cs : List Char} {tokens : List Token}
    (h : Scans offset cs (tokens ++ [⟨.finish, .point stop, ""⟩])) (rest : List Char) :
    lexFrom offset (cs ++ ')' :: rest) =
      (lexFrom (offset + byteLength cs) (')' :: rest)).map (tokens ++ ·) :=
  h.lexFrom_append (goesOn_paren (.inr rfl)) rest

/-- Replaced text begins as the text does, or with a parenthesis. -/
theorem head?_inlineChars {name : String} {body cs : List Char} :
    ∀ d ∈ (inlineChars name body cs).head?, d ∈ cs.head? ∨ d = '(' ∨ d = ')' := by
  intro d mem
  cases cs with
  | nil =>
      rw [inlineChars] at mem
      cases mem
  | cons c rest =>
      rw [inlineChars] at mem
      split at mem
      · exact .inl mem
      · simp only at mem
        split at mem
        · exact .inr (.inl (Option.some.inj mem).symm)
        · exact .inl mem

/-- A text in parentheses has the tokens of the text between two parentheses. -/
theorem bare_lexFrom_parenthesized {body : List Char} {tokens : List Token} {stop : Nat}
    (scans : Scans 0 body (tokens ++ [⟨.finish, .point stop, ""⟩])) (offset : Nat)
    (rest : List Char) :
    ∃ offset', (lexFrom offset ('(' :: (body ++ ')' :: rest))).map (List.map bare) =
      ((lexFrom offset' rest).map (List.map bare)).map
        (⟨.leftParen, .point 0, "("⟩ ::
          (tokens.map bare ++ [⟨.rightParen, .point 0, ")"⟩]) ++ ·) := by
  have opens : operatorKind? '(' = some .leftParen := rfl
  have closes : operatorKind? ')' = some .rightParen := rfl
  have moved := @Scans.mapOffsets _ _ _ (· + (offset + byteLength ['('])) scans (by omega)
  rw [List.map_append, List.map_singleton, Nat.zero_add] at moved
  refine ⟨offset + byteLength ['('] + byteLength body + byteLength [')'], ?_⟩
  rw [lexFrom_operator opens, moved.before_closing rest, lexFrom_operator closes]
  cases lexFrom (offset + byteLength ['('] + byteLength body + byteLength [')']) rest with
  | error cause => rfl
  | ok more =>
      simp [Except.map, bare, mapOffsets, Span.mapOffsets, Span.point, Function.comp_def]

/-- A lexeme is taken to what stands for its token, and then come the other ones. -/
theorem flatMap_lexFrom (image : Token → List Token) {c : Char} {more rest : List Char}
    {kind : TokenKind} (found : lexeme? c (more ++ rest) = some (kind, more.length))
    (offset : Nat) :
    ∃ token offset', token.kind = kind ∧ token.text = String.ofList (c :: more) ∧
      (lexFrom offset (c :: more ++ rest)).map (List.flatMap image) =
        ((lexFrom offset' rest).map (List.flatMap image)).map (image token ++ ·) := by
  refine ⟨⟨kind, ⟨offset, offset + byteLength (c :: more)⟩, String.ofList (c :: more)⟩,
    offset + byteLength (c :: more), rfl, rfl, ?_⟩
  rw [lexFrom_lexeme (isBlank_of_lexeme? found) found]
  cases lexFrom (offset + byteLength (c :: more)) rest <;> rfl

/-- The tokens of replaced text are those of the text with the name replaced. -/
theorem code_lexFrom_inlineChars (name : String) {body : Body} {chars : List Char}
    {tokens : List Token} {stop : Nat}
    (scans : Scans 0 chars (tokens ++ [⟨.finish, .point stop, ""⟩]))
    (same : body.tokens = tokens.map bare) (cs : List Char) (offset offset' : Nat) :
    ((lexFrom offset' (inlineChars name chars cs)).map (List.map bare)).mapError Error.code =
      ((lexFrom offset cs).map (List.flatMap (substitute (only name body)))).mapError
        Error.code := by
  fun_induction inlineChars name chars cs generalizing offset offset' with
  | case1 =>
      rw [lexFrom_nil, lexFrom_nil]
      rfl
  | case2 c rest foreign ih =>
      have foreign' : lexeme? c (inlineChars name chars rest) = none := by
        rw [lexeme?_eq, Option.map_eq_none_iff] at foreign ⊢
        exact foreign
      rw [lexFrom_of_lexeme?_eq_none foreign, lexFrom_of_lexeme?_eq_none foreign']
      split
      · exact ih _ _
      · rfl
  | case3 c rest kind more found text after isName ih =>
      obtain ⟨token, next, sameKind, sameText, replaced⟩ :=
        flatMap_lexFrom (substitute (only name body)) (lexeme?_take_drop found) offset
      obtain ⟨next', parenthesized⟩ := bare_lexFrom_parenthesized scans offset' after
      have one : token.substitute (only name body) = ⟨.leftParen, .point 0, "("⟩ ::
          (tokens.map bare ++ [⟨.rightParen, .point 0, ")"⟩]) := by
        rw [substitute, body?, if_pos (sameKind.trans isName.1), only, sameText, if_pos isName.2,
          ← same]
      rw [List.cons_append, List.take_append_drop] at replaced
      rw [parenthesized, replaced, one]
      exact mapError_map_congr (ih next next') _
  | case4 c rest kind more found text after other ih =>
      obtain ⟨token, next, sameKind, sameText, replaced⟩ :=
        flatMap_lexFrom (substitute (only name body)) (lexeme?_take_drop found) offset
      have ends := lexeme?_of_next (lexeme?_take_drop found) fun d mem =>
        (@head?_inlineChars name chars (rest.drop more) d mem).imp_right goesOn_paren
      have visible := isBlank_of_lexeme? found
      have one : token.substitute (only name body) = [token.bare] := by
        have unbound : token.body? (only name body) = none := by
          rw [body?, only, sameKind, sameText]
          by_cases isName : kind = .name
          · rw [if_pos isName, if_neg fun named => other ⟨isName, named⟩]
          · rw [if_neg isName]
        rw [substitute, unbound]
      have kept : (lexFrom offset' (text ++ after)).map (List.map bare) =
          ((lexFrom (offset' + byteLength text) after).map (List.map bare)).map
            ([token.bare] ++ ·) := by
        rw [lexFrom_lexeme visible ends]
        cases lexFrom (offset' + byteLength text) after with
        | error cause => rfl
        | ok others => simp [Except.map, bare, mapOffsets, sameKind, sameText, Span.mapOffsets]
      rw [List.cons_append, List.take_append_drop] at replaced
      rw [kept, replaced, one]
      exact mapError_map_congr (ih next _) _

end Token

/-! ### The tree of replaced text -/

/-- What is read up to the end is all but the closing token. -/
theorem eq_of_reads_to_end {tokens rest : List Token} {finish : Token} {e : Expr}
    (reads : Reads (.level 1) (tokens ++ [finish]) e rest)
    (closed : ∀ token ∈ rest.head?, token.kind = .finish) (isFinish : finish.kind = .finish)
    (others : ∀ token ∈ tokens, token.kind ≠ .finish) : rest = [finish] := by
  obtain ⟨used, _, shape, derived, -⟩ := reads.sound (Nat.le_refl 1)
  rcases List.eq_nil_or_concat rest with rfl | ⟨front, last, rfl⟩
  · rw [List.append_nil] at shape
    have inside : finish ∈ used := by simp [← shape]
    exact absurd isFinish (derived.kind_ne_finish _ inside)
  · rw [List.concat_eq_append, ← List.append_assoc] at shape
    obtain ⟨rfl, same⟩ := List.append_inj' shape rfl
    cases front with
    | nil => rw [List.concat_eq_append, List.nil_append, ← same]
    | cons token front =>
        have kind : token.kind = .finish := closed token rfl
        exact absurd kind (others token (by simp))

/-- A formula that has a tree may stand for a name. -/
theorem exists_body_of_parse {source : String} {e : Expr} (parsed : Expr.parse source = .ok e) :
    ∃ (body : Body) (tokens : List Token) (stop : Nat),
      Token.Scans 0 source.toList (tokens ++ [⟨.finish, .point stop, ""⟩]) ∧
      body.tokens = tokens.map Token.bare ∧ body.tree = e.bare := by
  obtain ⟨all, rest, lexed, reads, closed⟩ := parse_eq_ok_iff.1 parsed
  obtain ⟨tokens, rfl, others⟩ := (Token.scans_iff.2 lexed).ends
  generalize 0 + byteLength source.toList = stop at lexed reads
  obtain rfl := eq_of_reads_to_end reads closed rfl others
  have moved := @Reads.mapOffsets (fun _ => 0) (fun _ => Nat.le_refl 0) _ _ _ _ reads
  -- without ranges, tokens are in the order of their places whatever they are
  have ordered : (List.map Token.bare (tokens ++ [⟨.finish, .point stop, ""⟩])).Pairwise
      Token.Precedes := by
    refine List.pairwise_map.2 (List.pairwise_of_forall fun _ _ => ?_)
    exact ⟨Nat.le_refl 0, Nat.le_refl 0⟩
  obtain ⟨used, shape, _, again⟩ := moved.spanned (Nat.le_refl 1) ordered
  rw [List.map_append] at shape
  obtain rfl := List.append_cancel_right shape
  exact ⟨⟨_, _, again⟩, tokens, stop, Token.scans_iff.2 lexed, rfl, rfl⟩

/-- Replaced text has the tree with the formula's tree for the name. -/
theorem code_parse_inline (name : String) {source : String} {body : Body} {tokens : List Token}
    {stop : Nat}
    (scans : Token.Scans 0 source.toList (tokens ++ [⟨.finish, .point stop, ""⟩]))
    (same : body.tokens = tokens.map Token.bare) (formula : String) :
    ((Expr.parse (inline name source formula)).map Expr.bare).mapError Error.code =
      ((Expr.parse formula).map (Expr.substitute (only name body))).mapError Error.code := by
  have lexed := Token.code_lexFrom_inlineChars name scans same formula.toList 0 0
  unfold Expr.parse Token.lex inline
  rw [String.toList_ofList]
  cases whole : Token.lexFrom 0 formula.toList with
  | error cause =>
      rw [whole] at lexed
      obtain ⟨cause', failed, sameCode⟩ := mapError_eq_error_iff.1 lexed
      rw [map_eq_error_iff.1 failed]
      exact congrArg Except.error sameCode
  | ok all =>
      rw [whole] at lexed
      obtain ⟨all', found, bared⟩ := map_eq_ok_iff.1 (mapError_eq_ok_iff.1 lexed)
      have alone := @Expr.ofTokens_substitute (fun _ => none) all'
      rw [Token.flatMap_substitute_none, funext Expr.substitute_none, bared] at alone
      rw [found]
      exact alone.symm.trans (Expr.ofTokens_substitute all)

end Formula

/-! ### Evaluation -/

namespace Evaluator

/-- A name in front of the others makes no difference to other names, unless they are a prefix
    before it. -/
theorem resolve?_define_of_ne {e : Evaluator} {name other : String} {u : MeasureUnit}
    (different : other ≠ name)
    (unprefixed : ∀ p : MetricPrefix, other.toList ≠ p.symbol :: name.toList) :
    e.resolve? other = (e.define name u).resolve? other := by
  have outside : ¬InReach name other := not_or.2 ⟨different, not_exists.2 unprefixed⟩
  exact ((agreeOff_define e name u).resolve?_eq outside).symm

/-- A name that is bound to a formula's unit can be replaced by the formula in parentheses: the
    formula with the replaced text denotes the same unit, or fails with the same kind of error. -/
theorem evaluate_inline (e : Evaluator) {source : String} {tree : Expr} {u : MeasureUnit}
    {name formula : String} (parsed : Expr.parse source = .ok tree)
    (folded : e.fold tree = .ok (.unit u))
    (unprefixed : ∀ tokens, Formula.Token.lex formula = .ok tokens → ∀ token ∈ tokens,
      token.kind = .name → ∀ p : MetricPrefix, token.text.toList ≠ p.symbol :: name.toList) :
    (e.evaluate (Formula.inline name source formula)).mapError (Failure.map Error.code) =
      ((e.define name u).evaluate formula).mapError (Failure.map Error.code) := by
  obtain ⟨body, tokens, stop, scans, same, bared⟩ := Formula.exists_body_of_parse parsed
  have trees := Formula.code_parse_inline name scans same formula
  cases whole : Expr.parse formula with
  | error cause =>
      rw [whole] at trees
      obtain ⟨cause', failed, sameCode⟩ := mapError_eq_error_iff.1 trees
      simp [evaluate, whole, map_eq_error_iff.1 failed, Failure.map, sameCode]
  | ok expr =>
      rw [whole] at trees
      obtain ⟨expr', found, sameTree⟩ := map_eq_ok_iff.1 (mapError_eq_ok_iff.1 trees)
      have means : ∀ other ∈ expr.names,
          Means (Formula.only name body) e (e.define name u) other := by
        intro other mem
        obtain ⟨all, lexed, token, inside, kind, rfl⟩ := Formula.exists_token_of_mem_names whole mem
        unfold Means Formula.only
        by_cases isName : token.text = name
        · rw [if_pos isName]
          refine ⟨u, ?_, ?_⟩
          · rw [bared, Expr.bare, fold_mapOffsets, folded]
            rfl
          · rw [resolve?_eq_find?, Resolution.find?_eq_exact_iff, lookup?_define,
              if_pos isName.symm]
        · rw [if_neg isName]
          exact resolve?_define_of_ne isName (unprefixed all lexed token inside kind)
      rw [evaluate_eq_of_parse found, evaluate_eq_of_parse whole]
      calc (e.evaluateExpr expr').mapError (Failure.map Error.code)
          = (e.evaluateExpr expr'.bare).mapError (Failure.map Error.code) := by
            rw [← Expr.substitute_none]
            exact (@evaluateExpr_substitute e e (fun _ => none) expr' fun _ _ => rfl).symm
        _ = (e.evaluateExpr (expr.substitute (Formula.only name body))).mapError
              (Failure.map Error.code) := by rw [sameTree]
        _ = ((e.define name u).evaluateExpr expr).mapError (Failure.map Error.code) :=
            evaluateExpr_substitute means

/-- Two metres under a name of their own, squared. -/
theorem evaluate_inline_square :
    ∃ tree, Expr.parse "m*2" = .ok tree ∧
      (ofTable .defaults).fold tree = .ok (.unit ⟨.base .length, .ofNat 2⟩) ∧
      Formula.inline "x" "m*2" "x^2" = "(m*2)^2" ∧
      ((ofTable .defaults).define "x" ⟨.base .length, .ofNat 2⟩).evaluate "x^2" =
        .ok ⟨.ofList 2 0 0 0 0, .ofNat 4⟩ ∧
      (ofTable .defaults).evaluate "(m*2)^2" = .ok ⟨.ofList 2 0 0 0 0, .ofNat 4⟩ := by
  have two : Literal.read "2" = .ok (.whole 2) := by decide +kernel
  have lexedBody : Formula.Token.lex "m*2" = .ok [⟨.name, ⟨0, 1⟩, "m"⟩, ⟨.star, ⟨1, 2⟩, "*"⟩,
      ⟨.number, ⟨2, 3⟩, "2"⟩, ⟨.finish, .point 3, ""⟩] := by decide +kernel
  have parsed := Formula.parse_of_lex_operation lexedBody rfl rfl rfl two rfl
  have folded : (ofTable .defaults).fold (.binary .mul (.name "m" ⟨0, 1⟩)
      (.number (.whole 2) ⟨2, 3⟩) ⟨0, 3⟩) = .ok (.unit ⟨.base .length, .ofNat 2⟩) := by
    decide +kernel
  have lexed : Formula.Token.lex "x^2" = .ok [⟨.name, ⟨0, 1⟩, "x"⟩, ⟨.caret, ⟨1, 2⟩, "^"⟩,
      ⟨.number, ⟨2, 3⟩, "2"⟩, ⟨.finish, .point 3, ""⟩] := by decide +kernel
  have square : ((ofTable .defaults).define "x" ⟨.base .length, .ofNat 2⟩).evaluate "x^2" =
      .ok ⟨.ofList 2 0 0 0 0, .ofNat 4⟩ := by
    rw [evaluate_eq_of_parse (Formula.parse_of_lex_operation lexed rfl rfl rfl two rfl)]
    decide +kernel
  have replaced : Formula.inline "x" "m*2" "x^2" = "(m*2)^2" := by decide +kernel
  have unprefixed : ∀ tokens, Formula.Token.lex "x^2" = .ok tokens → ∀ token ∈ tokens,
      token.kind = .name → ∀ p : MetricPrefix, token.text.toList ≠ p.symbol :: "x".toList := by
    intro tokens found token inside kind p
    rw [lexed] at found
    cases found
    simp only [List.mem_cons, List.not_mem_nil, or_false] at inside
    rcases inside with rfl | rfl | rfl | rfl
    · cases p <;> decide
    all_goals cases kind
  have same := evaluate_inline (ofTable .defaults) parsed folded unprefixed
  rw [replaced, square] at same
  exact ⟨_, parsed, folded, replaced, square, mapError_eq_ok_iff.1 same⟩

end Evaluator

end Metrology
