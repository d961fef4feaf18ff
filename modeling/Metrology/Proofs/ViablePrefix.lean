/-
Module: Metrology.Proofs.ViablePrefix
Layer: Proofs
Purpose: Syntax errors point at the first token that cannot stand there. Tokens are viable if some
  formula that has a tree begins with them, wherever they stand in it. What the readers have used
  before they complain is viable, since a text can be written behind it that completes it; with the
  token they complain about it is viable no more, since they complain alike whatever comes next. So
  the end is complained about exactly where all tokens are viable and yet have no tree.
Imports: Metrology.Proofs.BlamedToken, Metrology.Proofs.NameSubstitution,
  Metrology.Proofs.Tokenization
Main exports: Viable, Token.Scans.exists_completion, WholeBlame.viable, WholeBlame.not_viable,
  parse_error_viable
-/
import Metrology.Proofs.BlamedToken
import Metrology.Proofs.NameSubstitution
import Metrology.Proofs.Tokenization

namespace Metrology.Formula

/-- Some formula that has a tree begins with the tokens, wherever they stand in it. -/
def Viable (front : List Token) : Prop :=
  ∃ source tokens e, Token.lex source = .ok tokens ∧ Expr.parse source = .ok e ∧
    front.map Token.bare <+: tokens.map Token.bare

theorem Viable.of_append {front back : List Token} (h : Viable (front ++ back)) : Viable front := by
  obtain ⟨source, tokens, e, lexed, parsed, begins⟩ := h
  refine ⟨source, tokens, e, lexed, parsed, ?_⟩
  rw [List.map_append] at begins
  exact (List.prefix_append _ _).trans begins

/-! ### Completed texts -/

namespace Token

variable {offset : Nat} {cs : List Char} {front back : List Token}

/-- The lexer can be stopped behind any of the tokens, or before the first. -/
theorem Scans.exists_front (h : Scans offset cs (front ++ back))
    (others : ∀ token ∈ front, token.kind ≠ .finish) :
    ∃ text stop, Scans offset text (front ++ [⟨.finish, .point stop, ""⟩]) := by
  rcases List.eq_nil_or_concat front with rfl | ⟨most, last, rfl⟩
  · exact ⟨[], offset, .finish⟩
  · rw [List.concat_eq_append, List.append_assoc] at h
    obtain ⟨text, _, -, -, scans⟩ := h.up_to_token (others last (by simp))
    exact ⟨text, _, by simpa using scans⟩

/-- A character that is a token alone is the next token behind a blank. -/
theorem Scans.exists_next {stop : Nat} {c : Char} {kind : TokenKind}
    (h : Scans offset cs (front ++ [⟨.finish, .point stop, ""⟩])) (visible : isBlank c = false)
    (found : lexeme? c [] = some (kind, 0)) :
    ∃ token stop', token.kind = kind ∧
      Scans offset (cs ++ [' ', c]) (front ++ [token, ⟨.finish, .point stop', ""⟩]) := by
  have apart (hex : Bool) (kind : TokenKind) (last : Char) : goesOn hex kind last ' ' = false := by
    cases kind <;> rfl
  have later : Scans (offset + byteLength cs) [' ', c] _ :=
    .blank rfl (@Scans.lexeme _ _ [] _ _ _ visible found .finish)
  have whole := h.lexFrom_append apart [c]
  rw [later.lexFrom_eq] at whole
  exact ⟨⟨kind, _, _⟩, _, rfl, scans_iff.2 whole⟩

/-- Behind the tokens of a text a name or a closing parenthesis can be written as often as need
    be. -/
theorem Scans.exists_completion {stop : Nat} {kinds : List TokenKind}
    (h : Scans offset cs (front ++ [⟨.finish, .point stop, ""⟩]))
    (isCompletion : IsCompletion kinds) :
    ∃ text completion stop', completion.map Token.kind = kinds ∧
      Scans offset text (front ++ (completion ++ [⟨.finish, .point stop', ""⟩])) := by
  induction kinds generalizing front cs stop with
  | nil => exact ⟨cs, [], stop, rfl, h⟩
  | cons kind kinds ih =>
      obtain ⟨first, others⟩ := List.forall_mem_cons.1 isCompletion
      obtain ⟨token, next, rfl, scans⟩ : ∃ token next, token.kind = kind ∧ ∃ text,
          Scans offset text (front ++ [token, ⟨.finish, .point next, ""⟩]) := by
        rcases first with rfl | rfl
        · have name : lexeme? 'x' [] = some (.name, 0) := by decide
          obtain ⟨token, next, same, scans⟩ := h.exists_next (by decide) name
          exact ⟨token, next, same, _, scans⟩
        · have closing : lexeme? ')' [] = some (.rightParen, 0) := by decide
          obtain ⟨token, next, same, scans⟩ := h.exists_next (by decide) closing
          exact ⟨token, next, same, _, scans⟩
      obtain ⟨text, scans⟩ := scans
      rw [← List.singleton_append, ← List.append_assoc] at scans
      obtain ⟨text, completion, stop', rfl, scans⟩ := ih scans others
      exact ⟨text, token :: completion, stop', rfl, by simpa using scans⟩

end Token

/-! ### What can and what cannot go on -/

/-- What has been used before the complaint begins a formula that has a tree. -/
theorem WholeBlame.viable {cause : Error} {used rest : List Token} {source : String}
    (h : WholeBlame cause used rest) (scans : Token.Scans 0 source.toList (used ++ rest)) :
    Viable used := by
  obtain ⟨kinds, isCompletion, completes⟩ := h.completes
  obtain ⟨text, stop, scans⟩ := scans.exists_front h.others
  obtain ⟨text, completion, stop, same, scans⟩ := scans.exists_completion isCompletion
  obtain ⟨e, read⟩ := completes completion same ⟨.finish, .point stop, ""⟩ rfl
  have lexed := Token.lex_ofList_eq_ok_iff.2 scans
  refine ⟨_, _, e, lexed, (parse_eq_of_lex lexed).trans read, ?_⟩
  rw [List.map_append]
  exact List.prefix_append _ _

/-- Whether tokens have a tree does not depend on where they stand. -/
theorem exists_ofTokens_bare_iff (tokens : List Token) :
    (∃ e, Expr.ofTokens (tokens.map Token.bare) = .ok e) ↔ ∃ e, Expr.ofTokens tokens = .ok e := by
  have same := @Expr.ofTokens_substitute (fun _ => none) tokens
  rw [Token.flatMap_substitute_none] at same
  cases bare : Expr.ofTokens (tokens.map Token.bare) <;> cases whole : Expr.ofTokens tokens <;>
    simp_all [Except.map]

/-- No formula that has a tree goes on with the token that the complaint is about. -/
theorem WholeBlame.not_viable {cause : Error} {used rest : List Token} {token : Token}
    (h : WholeBlame cause used (token :: rest)) : ¬Viable (used ++ [token]) := by
  rintro ⟨source, tokens, e, lexed, parsed, after, begins⟩
  obtain ⟨front, later, rfl, sameFront, rfl⟩ := List.map_eq_append_iff.1 begins.symm
  have same : (front ++ later).map Token.bare = (used ++ token :: later).map Token.bare := by
    simp [sameFront]
  rw [parse_eq_of_lex lexed] at parsed
  have read := (exists_ofTokens_bare_iff (front ++ later)).2 ⟨e, parsed⟩
  rw [same, exists_ofTokens_bare_iff, h.fails (token :: later) rfl] at read
  obtain ⟨e, impossible⟩ := read
  cases impossible

/-! ### The token of a range -/

namespace Token

/-- A token behind another one does not have its range. -/
theorem Tokenizes.span_ne {source : String} {body front middle back : List Token}
    {token token' : Token} (h : Tokenizes source body)
    (split : body = front ++ token :: (middle ++ token' :: back)) : token.span ≠ token'.span := by
  have disjoint := h.disjoint
  rw [split] at disjoint
  have behind := (List.pairwise_cons.1 (List.pairwise_append.1 disjoint).2.1).1 token' (by simp)
  have nonempty := h.nonempty token (by simp [split])
  intro same
  rw [← same] at behind
  omega

/-- No two tokens of a text have the same range. -/
theorem Tokenizes.split_unique {source : String} {body front front' back back' : List Token}
    {token token' : Token} (h : Tokenizes source body) (split : body = front ++ token :: back)
    (split' : body = front' ++ token' :: back') (same : token.span = token'.span) :
    front = front' ∧ token = token' := by
  rcases List.append_eq_append_iff.1 (split.symm.trans split') with
    ⟨middle, rfl, more⟩ | ⟨middle, rfl, more⟩
  · cases middle with
    | nil => exact ⟨(List.append_nil front).symm, (List.cons.inj more).1⟩
    | cons first middle =>
        obtain ⟨rfl, rfl⟩ := List.cons.inj more
        exact absurd same (h.span_ne split)
  · cases middle with
    | nil => exact ⟨List.append_nil front', (List.cons.inj more).1.symm⟩
    | cons first middle =>
        obtain ⟨rfl, rfl⟩ := List.cons.inj more
        exact absurd same.symm (h.span_ne split')

end Token

/-! ### Syntax errors -/

/-- A formula whose text has tokens can fail at one of them, which is named with its range, or at
    the end. -/
theorem exists_blamed_of_parse {source : String} {body : List Token} {stop : Nat} {err : Error}
    (lexed : Token.lex source = .ok (body ++ [⟨.finish, .point stop, ""⟩]))
    (failed : Expr.parse source = .error err) :
    (∃ expected, err = .unexpectedEnd expected (.point stop) ∧ Viable body) ∨
      ∃ front token back, body = front ++ token :: back ∧
        ((∃ expected, err = .unexpectedToken expected token.text token.span) ∨
          ∃ defect, err = .malformedLiteral token.text defect token.span) ∧
        Viable front ∧ ¬Viable (front ++ [token]) := by
  have scans : Token.Scans 0 source.toList _ := Token.scans_iff.2 lexed
  obtain ⟨body', same, kinds⟩ := scans.ends
  obtain ⟨rfl, -⟩ := List.append_inj' same rfl
  rw [parse_eq_of_lex lexed] at failed
  obtain ⟨used, rest, split, blame⟩ := exists_wholeBlame failed
  have viable : Viable used := blame.viable (split ▸ scans)
  rcases blame.cases split rfl with ⟨rfl, rfl⟩ | ⟨token, back, rfl, rfl⟩
  · obtain ⟨expected, rfl⟩ := blame.blames.of_finish rfl
    exact .inl ⟨expected, rfl, viable⟩
  · exact .inr ⟨used, token, back, rfl, blame.blames.of_token (kinds token (by simp)), viable,
      blame.not_viable⟩

/-- Where the text of a formula has tokens, an error of its syntax is about the first token that
    cannot stand there: what is before it begins a formula that has a tree, and together with it
    begins none. The error is about the end exactly where all tokens begin such a formula and are
    none themselves. -/
theorem parse_error_viable {source : String} {body : List Token} {stop : Nat}
    (lexed : Token.lex source = .ok (body ++ [⟨.finish, .point stop, ""⟩])) :
    (∀ err front token back, Expr.parse source = .error err → body = front ++ token :: back →
      err.span = token.span → Viable front ∧ ¬Viable (front ++ [token])) ∧
    (∀ err, Expr.parse source = .error err → (∃ expected span, err = .unexpectedEnd expected span) ∨
      ∃ token ∈ body, (∃ expected, err = .unexpectedToken expected token.text token.span) ∨
        ∃ defect, err = .malformedLiteral token.text defect token.span) ∧
    ((∃ expected span, Expr.parse source = .error (.unexpectedEnd expected span)) ↔
      Viable body ∧ ¬∃ e, Expr.parse source = .ok e) ∧
    ∀ expected span, Expr.parse source = .error (.unexpectedEnd expected span) →
      span = .point (byteLength source.toList) := by
  have scans : Token.Scans 0 source.toList _ := Token.scans_iff.2 lexed
  obtain ⟨body', same, kinds⟩ := scans.ends
  obtain ⟨rfl, finish⟩ := List.append_inj' same rfl
  have atEnd : Span.point stop = .point (byteLength source.toList) := by simpa using finish
  have tokenizes := scans.tokenizes kinds
  refine ⟨?_, ?_, ?_, ?_⟩
  · intro err front token back failed split range
    rcases exists_blamed_of_parse lexed failed with
      ⟨expected, rfl, -⟩ | ⟨front', token', back', split', named, viable, notViable⟩
    · -- the range of a token is not empty
      have nonempty := tokenizes.nonempty token (by simp [split])
      rw [← range] at nonempty
      exact absurd nonempty (Nat.lt_irrefl stop)
    · have sameRange : token'.span = token.span := by
        rcases named with ⟨expected, rfl⟩ | ⟨defect, rfl⟩ <;> exact range
      obtain ⟨rfl, rfl⟩ := tokenizes.split_unique split' split sameRange
      exact ⟨viable, notViable⟩
  · intro err failed
    rcases exists_blamed_of_parse lexed failed with
      ⟨expected, rfl, -⟩ | ⟨front, token, back, rfl, named, -⟩
    · exact .inl ⟨_, _, rfl⟩
    · exact .inr ⟨token, by simp, named⟩
  · constructor
    · rintro ⟨expected, span, failed⟩
      rcases exists_blamed_of_parse lexed failed with
        ⟨_, -, viable⟩ | ⟨_, _, _, _, ⟨_, other⟩ | ⟨_, other⟩, _⟩
      · exact ⟨viable, by simp [failed]⟩
      · cases other
      · cases other
    · rintro ⟨viable, noTree⟩
      cases parsed : Expr.parse source with
      | ok e => exact absurd ⟨e, parsed⟩ noTree
      | error err =>
          rcases exists_blamed_of_parse lexed parsed with
            ⟨expected, rfl, -⟩ | ⟨front, token, back, rfl, -, -, notViable⟩
          · exact ⟨expected, _, rfl⟩
          · rw [← List.singleton_append, ← List.append_assoc] at viable
            exact absurd viable.of_append notViable
  · intro expected span failed
    rcases exists_blamed_of_parse lexed failed with
      ⟨_, same, -⟩ | ⟨_, _, _, _, ⟨_, other⟩ | ⟨_, other⟩, _⟩
    · cases same
      exact atEnd
    · cases other
    · cases other

/-- A name where a group has to be closed, and a group that is missing its inside. -/
theorem parse_error_viable_group :
    (Expr.parse "(m s" = .error (.unexpectedToken .closing "s" ⟨3, 4⟩) ∧
      Viable [⟨.leftParen, ⟨0, 1⟩, "("⟩, ⟨.name, ⟨1, 2⟩, "m"⟩] ∧
      ¬Viable [⟨.leftParen, ⟨0, 1⟩, "("⟩, ⟨.name, ⟨1, 2⟩, "m"⟩, ⟨.name, ⟨3, 4⟩, "s"⟩]) ∧
    Expr.parse "m^(" = .error (.unexpectedEnd .operand (.point 3)) ∧
      Viable [⟨.name, ⟨0, 1⟩, "m"⟩, ⟨.caret, ⟨1, 2⟩, "^"⟩, ⟨.leftParen, ⟨2, 3⟩, "("⟩] := by
  have lexed : Token.lex "(m s" = .ok ([⟨.leftParen, ⟨0, 1⟩, "("⟩, ⟨.name, ⟨1, 2⟩, "m"⟩,
      ⟨.name, ⟨3, 4⟩, "s"⟩] ++ [⟨.finish, .point 4, ""⟩]) := by
    decide +kernel
  have failed : Expr.parse "(m s" = .error (.unexpectedToken .closing "s" ⟨3, 4⟩) := by
    have inside : Reads (.level 1) _ (.name "m" ⟨1, 2⟩)
        [⟨.name, ⟨3, 4⟩, "s"⟩, ⟨.finish, .point 4, ""⟩] :=
      .level (@Reads.name ⟨.name, ⟨1, 2⟩, "m"⟩ _ rfl) (.stop (stops_of_no_operator rfl 1 _))
    rw [parse_eq_of_lex lexed]
    exact ofTokens_of_fails (.first (.unclosed rfl inside (by simp)))
  have lexed' : Token.lex "m^(" = .ok ([⟨.name, ⟨0, 1⟩, "m"⟩, ⟨.caret, ⟨1, 2⟩, "^"⟩,
      ⟨.leftParen, ⟨2, 3⟩, "("⟩] ++ [⟨.finish, .point 3, ""⟩]) := by
    decide +kernel
  have failed' : Expr.parse "m^(" = .error (.unexpectedEnd .operand (.point 3)) := by
    rw [parse_eq_of_lex lexed']
    exact ofTokens_of_fails (.more (.name rfl)
      (.right rfl (by decide) (.first (.inside rfl (.first (.noOperand rfl))))))
  obtain ⟨firstImpossible, -⟩ := parse_error_viable lexed
  obtain ⟨-, -, atEnd, -⟩ := parse_error_viable lexed'
  exact ⟨⟨failed, firstImpossible _ _ _ [] failed rfl rfl⟩, failed', (atEnd.1 ⟨_, _, failed'⟩).1⟩

end Metrology.Formula
