/-
Module: Metrology.Proofs.ErrorRanges
Layer: Proofs
Purpose: Ranges of errors are there in the formula. Whatever step an error is raised in, its range
  cuts a text out of the formula on character boundaries, and what the error quotes is that text: a
  refused character, a token, or a name between its parentheses. The text is empty at the end of the
  formula only, where something is missing. Errors of operations are about a subexpression, whose
  range is that of its tokens.
Imports: Mathlib.Data.List.DropRight, Metrology.Proofs.BlamedToken,
  Metrology.Proofs.ErrorLocalisation, Metrology.Proofs.Tokenization
Main exports: Formula.unenclosed, Error.Quotes, Error.PointsAt,
  Token.Scans.unenclosed_eq, exists_pointsAt_of_parse, Evaluator.evaluate_error_pointsAt
-/
import Mathlib.Data.List.DropRight
import Metrology.Proofs.BlamedToken
import Metrology.Proofs.ErrorLocalisation
import Metrology.Proofs.Tokenization

namespace Metrology

open Formula (Error Expr Operator Token)

namespace Formula

/-! ### What an error quotes -/

/-- The text without the blanks and parentheses around it. -/
def unenclosed (cs : List Char) : List Char :=
  (cs.dropWhile fun c => Token.isBlank c || c == '(').rdropWhile fun c =>
    Token.isBlank c || c == ')'

/-- What an error quotes of the formula is the text in its range. -/
def Error.Quotes (text : String) : Error → Prop
  | unresolvedIdentifier name _ => name = String.ofList (unenclosed text.toList)
  | malformedLiteral found _ _ => found = text
  | unexpectedCharacter found _ => String.ofList [found] = text
  | unexpectedToken _ found _ => found = text
  | _ => True

/-- The range of an error is of use to a reader of the formula. -/
structure Error.PointsAt (err : Error) (source text : String) : Prop where
  /-- Both ends are boundaries between characters of the formula. -/
  slice : err.span.slice? source = some text
  within : err.span.stop ≤ byteLength source.toList
  /-- The range is empty only where the formula ends too early. -/
  empty_iff : err.span.length = 0 ↔ ∃ expected span, err = .unexpectedEnd expected span
  atEnd : ∀ expected span, err = .unexpectedEnd expected span →
    span = .point (byteLength source.toList)
  quotes : err.Quotes text

theorem stop_le_of_slice {span : Span} {source text : String}
    (h : span.slice? source = some text) : span.stop ≤ byteLength source.toList := by
  obtain ⟨before, after, whole, start, stop⟩ := Span.slice?_eq_some_iff.1 h
  rw [whole, byteLength_append, byteLength_append]
  omega

theorem length_of_slice {span : Span} {source text : String}
    (h : span.slice? source = some text) : span.length = byteLength text.toList := by
  obtain ⟨before, after, whole, start, stop⟩ := Span.slice?_eq_some_iff.1 h
  rw [Span.length]
  omega

/-- A range with a text in it is all that is needed away from the end. -/
theorem Error.PointsAt.of_slice {err : Error} {source text : String}
    (slice : err.span.slice? source = some text) (nonempty : text.toList ≠ [])
    (notEnd : ∀ expected span, err ≠ .unexpectedEnd expected span) (quotes : err.Quotes text) :
    err.PointsAt source text where
  slice := slice
  within := stop_le_of_slice slice
  empty_iff := by
    rw [length_of_slice slice, byteLength_eq_zero_iff]
    exact iff_of_false nonempty fun ⟨expected, span, same⟩ => notEnd expected span same
  atEnd := fun expected span same => absurd same (notEnd expected span)
  quotes := quotes

theorem slice?_end (source : String) :
    Span.slice? (.point (byteLength source.toList)) source = some "" :=
  Span.slice?_eq_some_iff.2 ⟨source.toList, [], by simp, rfl, rfl⟩

theorem Error.PointsAt.finish (expected : Expected) (source : String) :
    (unexpectedEnd expected (.point (byteLength source.toList))).PointsAt source "" where
  slice := slice?_end source
  within := Nat.le_refl _
  empty_iff := iff_of_true (Span.length_point _) ⟨_, _, rfl⟩
  atEnd := by
    rintro _ _ ⟨⟩
    rfl
  quotes := trivial

/-! ### Errors of the syntax -/

/-- Errors of the lexer and of the readers are about a character, a token or the end. -/
theorem exists_pointsAt_of_parse {source : String} {err : Error}
    (failed : Expr.parse source = .error err) : ∃ text, err.PointsAt source text := by
  unfold Expr.parse at failed
  split at failed
  · next cause lexed =>
    cases failed
    obtain ⟨p, c, ⟨front, after, whole, start, -⟩, rfl⟩ := Token.lex_eq_error_iff_refused.1 lexed
    have slice : Span.slice? ⟨p, p + c.utf8Size⟩ source = some (String.ofList [c]) := by
      refine Span.slice?_eq_some_iff.2 ⟨front, after, ?_, start, ?_⟩ <;> simp [whole]
    exact ⟨_, .of_slice slice (by simp) nofun rfl⟩
  · next tokens lexed =>
    have scans : Token.Scans 0 source.toList tokens := Token.scans_iff.2 lexed
    obtain ⟨body, rfl, kinds⟩ := scans.ends
    rw [Nat.zero_add] at scans failed
    have tokenizes := scans.tokenizes kinds
    obtain ⟨used, rest, split, blame⟩ := exists_wholeBlame failed
    rcases blame.cases split rfl with ⟨-, rfl⟩ | ⟨token, back, rfl, rfl⟩
    · obtain ⟨expected, rfl⟩ := blame.blames.of_finish rfl
      exact ⟨"", .finish expected source⟩
    · have mem : token ∈ used ++ token :: back := by simp
      have slice := tokenizes.text token mem
      have nonempty : token.text.toList ≠ [] := by
        obtain ⟨c, more, chars, -⟩ := tokenizes.lexeme token mem
        simp [chars]
      rcases blame.blames.of_token (kinds token mem) with ⟨expected, rfl⟩ | ⟨defect, rfl⟩
      · exact ⟨_, .of_slice slice nonempty nofun rfl⟩
      · exact ⟨_, .of_slice slice nonempty nofun rfl⟩

/-! ### Names in parentheses -/

/-- A name is read from a name token between parentheses, and a chain does not come to one. -/
def Task.ReadsName : Task → List Token → Expr → List Token → Prop
  | chain _ left, tokens, e, rest => ∀ name span, e = .name name span → left = e ∧ tokens = rest
  | _, tokens, e, rest => ∀ name span, e = .name name span →
      ∃ opens token closes, tokens = opens ++ token :: (closes ++ rest) ∧
        (∀ t ∈ opens, t.kind = .leftParen) ∧ token.kind = .name ∧ token.text = name ∧
        ∀ t ∈ closes, t.kind = .rightParen

theorem Reads.readsName {task : Task} {tokens rest : List Token} {e : Expr}
    (h : Reads task tokens e rest) : task.ReadsName tokens e rest := by
  induction h with
  | @name token rest kind =>
      rintro _ _ ⟨⟩
      exact ⟨[], token, [], rfl, nofun, kind, rfl, nofun⟩
  | number _ _ => nofun
  | minus _ _ _ => nofun
  | @group opening closing tokens rest e opens closes _ ih =>
      intro name span same
      cases e with
      | name inner range =>
          obtain ⟨rfl, -⟩ := Expr.name.inj same
          obtain ⟨front, token, back, rfl, allOpen, kind, text, allClose⟩ := ih inner range rfl
          refine ⟨opening :: front, token, back ++ [closing], by simp, ?_, kind, text, ?_⟩
          · exact List.forall_mem_cons.2 ⟨opens, allOpen⟩
          · exact List.forall_mem_append.2 ⟨allClose, List.forall_mem_singleton.2 closes⟩
      | _ => cases same
  | level _ _ ihFirst ihMore =>
      intro name span same
      obtain ⟨rfl, rfl⟩ := ihMore name span same
      exact ihFirst name span same
  | stop _ => exact fun _ _ _ => ⟨rfl, rfl⟩
  | step _ _ _ _ _ ihMore =>
      intro name span same
      obtain ⟨left, -⟩ := ihMore name span same
      rw [same] at left
      cases left

/-! ### The text of a name in parentheses -/

namespace Token

variable {offset : Nat} {cs : List Char} {token : Token} {back : List Token} {kind : TokenKind}

/-- A text begins with the first of its tokens, behind blanks. -/
theorem Scans.uncons (h : Scans offset cs (token :: back)) (other : token.kind ≠ .finish) :
    ∃ blanks rest later, cs = blanks ++ (token.text.toList ++ rest) ∧
      (∀ c ∈ blanks, isBlank c = true) ∧ Scans later rest back := by
  generalize whole : token :: back = tokens at h
  induction h with
  | finish =>
      obtain ⟨rfl, -⟩ := List.cons.inj whole
      exact absurd rfl other
  | @blank offset c cs tokens isBlank _ ih =>
      obtain ⟨blanks, rest, later, rfl, blank, scans⟩ := ih whole
      exact ⟨c :: blanks, rest, later, rfl, List.forall_mem_cons.2 ⟨isBlank, blank⟩, scans⟩
  | @lexeme offset c more rest kind tokens visible found others _ =>
      obtain ⟨rfl, rfl⟩ := List.cons.inj whole
      exact ⟨[], rest, _, by simp, nofun, others⟩

/-- Nothing but blanks is before the end alone. -/
theorem Scans.isBlank_of_finish {finish : Token} (h : Scans offset cs [finish]) :
    ∀ c ∈ cs, isBlank c = true := by
  generalize whole : [finish] = tokens at h
  induction h with
  | finish => nofun
  | blank isBlank _ ih => exact List.forall_mem_cons.2 ⟨isBlank, ih whole⟩
  | lexeme _ _ others _ =>
      obtain ⟨-, rfl⟩ := List.cons.inj whole
      obtain ⟨body, impossible, -⟩ := others.ends
      simp at impossible

/-- A token that is an operator is the one character of the operator. -/
theorem operator_of_lexeme? {c : Char} {rest : List Char} {more : Nat}
    (h : lexeme? c rest = some (kind, more)) (noName : kind ≠ .name) (noNumber : kind ≠ .number) :
    operatorKind? c = some kind ∧ more = 0 := by
  unfold lexeme? at h
  split at h
  · cases h
    exact absurd rfl noName
  split at h
  · cases h
    exact absurd rfl noNumber
  · obtain ⟨found, operator, same⟩ := Option.map_eq_some_iff.1 h
    cases same
    exact ⟨operator, rfl⟩

theorem Scans.toList_text_of_operator {tokens : List Token} {symbol : Char}
    (h : Scans offset cs tokens) (mem : token ∈ tokens) (isKind : token.kind = kind)
    (others : kind ≠ .name ∧ kind ≠ .number ∧ kind ≠ .finish)
    (only : ∀ c, operatorKind? c = some kind → c = symbol) : token.text.toList = [symbol] := by
  obtain ⟨noName, noNumber, noFinish⟩ := others
  obtain ⟨_, c, more, _, _, _, _, text, found⟩ := h.exists_lexeme token mem (isKind ▸ noFinish)
  obtain ⟨operator, length⟩ :=
    operator_of_lexeme? found (isKind ▸ noName) (isKind ▸ noNumber)
  obtain rfl := only c (isKind ▸ operator)
  obtain rfl := List.eq_nil_of_length_eq_zero length
  rw [text, String.toList_ofList]

/-- Before the tokens behind some operators of one kind there is nothing but the operator's
    character and blanks. -/
theorem Scans.skip {symbol : Char} {front : List Token}
    (others : kind ≠ .name ∧ kind ≠ .number ∧ kind ≠ .finish)
    (only : ∀ c, operatorKind? c = some kind → c = symbol)
    (h : Scans offset cs (front ++ back)) (kinds : ∀ t ∈ front, t.kind = kind) :
    ∃ before rest later, cs = before ++ rest ∧ (∀ c ∈ before, (isBlank c || c == symbol) = true) ∧
      Scans later rest back := by
  induction front generalizing offset cs with
  | nil => exact ⟨[], cs, offset, rfl, nofun, h⟩
  | cons t front ih =>
      obtain ⟨isKind, kinds⟩ := List.forall_mem_cons.1 kinds
      have text := h.toList_text_of_operator List.mem_cons_self isKind others only
      obtain ⟨blanks, rest, later, rfl, blank, scans⟩ := h.uncons (isKind ▸ others.2.2)
      obtain ⟨before, rest, later, rfl, outside, scans⟩ := ih scans kinds
      refine ⟨blanks ++ symbol :: before, rest, later, by simp [text], ?_, scans⟩
      refine List.forall_mem_append.2 ⟨fun c mem => by simp [blank c mem], ?_⟩
      exact List.forall_mem_cons.2 ⟨by simp, outside⟩

end Token

/-- The text between blanks and parentheses is left, if it neither begins nor ends with one. -/
theorem unenclosed_append {before core after : List Char}
    (opening : ∀ c ∈ before, (Token.isBlank c || c == '(') = true)
    (closing : ∀ c ∈ after, (Token.isBlank c || c == ')') = true) (nonempty : core ≠ [])
    (inside : ∀ c ∈ core, Token.isNameChar c = true) :
    unenclosed (before ++ (core ++ after)) = core := by
  have apart {c paren : Char} (mem : c ∈ core) (noNumber : Token.isNumberChar paren = false) :
      (Token.isBlank c || c == paren) = false := by
    have number := Token.isNumberChar_of_isNameChar (inside c mem)
    simp only [Token.isBlank_of_isNumberChar number, Bool.false_or, beq_eq_false_iff_ne]
    rintro rfl
    rw [number] at noNumber
    cases noNumber
  rw [unenclosed, dropWhile_append_eq opening, List.rdropWhile, List.reverse_append,
    dropWhile_append_eq, List.reverse_reverse]
  · exact fun c mem => closing c (List.mem_reverse.1 mem)
  · exact fun c mem => apart (List.mem_reverse.1 (List.mem_of_mem_head? mem)) (by decide)
  · intro c mem
    obtain ⟨d, core, rfl⟩ := List.exists_cons_of_ne_nil nonempty
    obtain rfl : d = c := Option.some.inj mem
    exact apart List.mem_cons_self (by decide)

theorem Token.operatorKind?_eq_leftParen {c : Char} (h : operatorKind? c = some .leftParen) :
    c = '(' := by
  unfold operatorKind? at h
  split at h <;> first | rfl | cases h

theorem Token.operatorKind?_eq_rightParen {c : Char} (h : operatorKind? c = some .rightParen) :
    c = ')' := by
  unfold operatorKind? at h
  split at h <;> first | rfl | cases h

/-- A name token between parentheses is the text without what is around it. -/
theorem Token.Scans.unenclosed_eq {offset : Nat} {cs : List Char} {opens closes : List Token}
    {token finish : Token} (h : Scans offset cs (opens ++ token :: (closes ++ [finish])))
    (opening : ∀ t ∈ opens, t.kind = .leftParen) (name : token.kind = .name)
    (closing : ∀ t ∈ closes, t.kind = .rightParen) : unenclosed cs = token.text.toList := by
  have mem : token ∈ opens ++ token :: (closes ++ [finish]) := by simp
  obtain ⟨nonempty, inside⟩ := h.isNameChar_of_name mem name
  obtain ⟨before, rest, _, rfl, outside, scans⟩ :=
    h.skip (by decide) (fun _ => operatorKind?_eq_leftParen) opening
  obtain ⟨blanks, rest, _, rfl, blank, scans⟩ := scans.uncons (name ▸ nofun)
  obtain ⟨after, rest, _, rfl, outside', scans⟩ :=
    scans.skip (by decide) (fun _ => operatorKind?_eq_rightParen) closing
  have blank' := scans.isBlank_of_finish
  rw [← List.append_assoc before]
  refine unenclosed_append ?_ ?_ nonempty inside
  · exact List.forall_mem_append.2 ⟨outside, fun c mem => by simp [blank c mem]⟩
  · exact List.forall_mem_append.2 ⟨outside', fun c mem => by simp [blank' c mem]⟩

/-- The range of a subexpression has a text in it; of a name it is the name in parentheses. -/
theorem slice_of_mem_subexpressions {source : String} {e n : Expr}
    (parsed : Expr.parse source = .ok e) (node : n ∈ e.subexpressions) :
    ∃ text, n.span.slice? source = some text ∧ text.toList ≠ [] ∧
      ∀ name span, n = .name name span → name = String.ofList (unenclosed text.toList) := by
  obtain ⟨part, text, stands, slice, scans⟩ := exists_slice_of_parse parsed node
  refine ⟨text, slice, ?_, ?_⟩
  · intro empty
    rw [empty] at scans
    obtain ⟨first, _, isFirst, -, -⟩ := stands.covers
    obtain ⟨more, rfl⟩ := List.head?_eq_some_iff.1 isFirst
    exact absurd (congrArg List.length (scans.unique .finish)) (by simp)
  · rintro name span rfl
    have stops : Stops 1 [⟨.finish, .point 0, ""⟩] := stops_of_no_operator rfl 1 []
    obtain ⟨opens, token, closes, split, opening, kind, rfl, closing⟩ :=
      (stands.reads _ stops).readsName name span rfl
    obtain rfl : part = opens ++ token :: closes :=
      List.append_cancel_right (split.trans (by simp))
    rw [List.append_assoc, List.cons_append] at scans
    rw [scans.unenclosed_eq opening kind closing, String.ofList_toList]

end Formula

/-! ### Errors of operations -/

/-- The errors that operations on operands have. -/
def Formula.Error.isOperation : Error → Bool
  | .nonIntegerExponent .. => true
  | .mismatchedTerms .. => true
  | .invalidScale _ => true
  | .negatedUnit _ => true
  | .exponentOverflow _ => true
  | _ => false

namespace Operand

variable {exponentSpan span : Span} {left right o : Operand} {err : Error}

theorem isOperation_of_located {result : Except AlgebraError MeasureUnit}
    (h : located span result = .error err) : err.isOperation = true := by
  obtain ⟨cause, -, rfl⟩ := mapError_eq_error_iff.1 h
  cases cause <;> rfl

theorem isOperation_of_toUnit (h : o.toUnit span = .error err) : err.isOperation = true := by
  cases o with
  | number k => exact isOperation_of_located h
  | unit u => cases h

theorem isOperation_of_negate (h : o.negate span = .error err) : err.isOperation = true := by
  cases o with
  | number k => cases h
  | unit u =>
      cases h
      rfl

theorem isOperation_of_combineTerms {operator : Formula.TermOperator}
    (h : combineTerms operator span left right = .error err) : err.isOperation = true := by
  rcases bind_eq_error_iff.1 h with failed | ⟨u, -, rest⟩
  · exact isOperation_of_toUnit failed
  rcases bind_eq_error_iff.1 rest with failed | ⟨v, -, compared⟩
  · exact isOperation_of_toUnit failed
  · split at compared
    · cases compared
    · cases compared
      rfl

theorem isOperation_of_apply {op : Operator}
    (h : apply op exponentSpan span left right = .error err) : err.isOperation = true := by
  obtain ⟨f, outcome, same⟩ := apply_outcome op left right
  rw [same] at h
  cases outcome with
  | number k => cases h
  | made result => exact isOperation_of_located (unit_map_eq_error_iff.1 h)
  | terms operator => exact isOperation_of_combineTerms h
  | badExponent found =>
      cases h
      rfl
  | largeExponent =>
      cases h
      rfl

end Operand

namespace Evaluator

variable {e : Evaluator}

/-- The range of an error is that of a subexpression, which is the name if it is not resolved. -/
def IsRaisedAt (err : Error) (n : Expr) : Prop :=
  err.span = n.span ∧
    (err.isOperation = true ∨ ∃ name span, n = .name name span ∧
      err = .unresolvedIdentifier name span)

/-- An error has its range in the tree that raises it: a bad exponent is at the right operand. -/
theorem Raises.exists_isRaisedAt {expr : Expr} {err : Error} (h : e.Raises err expr) :
    ∃ n ∈ expr.subexpressions, IsRaisedAt err n := by
  cases h with
  | @name name span _ same =>
      exact ⟨_, Expr.self_mem_subexpressions _, congrArg Error.span same,
        .inr ⟨name, span, rfl, same⟩⟩
  | neg _ failed =>
      exact ⟨_, Expr.self_mem_subexpressions _, (Operand.reports_negate _).span_eq failed,
        .inl (Operand.isOperation_of_negate failed)⟩
  | binary _ _ failed =>
      have operation := Operand.isOperation_of_apply failed
      rcases Operand.span_of_apply failed with whole | ⟨found, rfl⟩
      · exact ⟨_, Expr.self_mem_subexpressions _, whole, .inl operation⟩
      · exact ⟨_, Expr.right_subset (Expr.self_mem_subexpressions _), rfl, .inl operation⟩

theorem exists_isRaisedAt_of_fold {expr : Expr} {err : Error}
    (failed : e.fold expr = .error (.error err)) :
    ∃ n ∈ expr.subexpressions, IsRaisedAt err n := by
  obtain ⟨part, inside, raises⟩ := exists_raises_of_fold failed
  obtain ⟨n, mem, raised⟩ := raises.exists_isRaisedAt
  exact ⟨n, Expr.subexpressions_subset inside mem, raised⟩

theorem exists_isRaisedAt {expr : Expr} {err : Error}
    (failed : e.evaluateExpr expr = .error (.error err)) :
    ∃ n ∈ expr.subexpressions, IsRaisedAt err n := by
  rw [evaluateExpr_eq] at failed
  rcases bind_eq_error_iff.1 failed with inner | ⟨o, _, made⟩
  · exact exists_isRaisedAt_of_fold inner
  · obtain ⟨cause, raised, same⟩ := mapError_eq_error_iff.1 made
    cases same
    exact ⟨expr, expr.self_mem_subexpressions, (Operand.reports_toUnit o).span_eq raised,
      .inl (Operand.isOperation_of_toUnit raised)⟩

/-- An error that is raised at a subexpression points at its text. -/
theorem IsRaisedAt.pointsAt {source text : String} {n : Expr} {err : Error} (h : IsRaisedAt err n)
    (slice : n.span.slice? source = some text) (nonempty : text.toList ≠ [])
    (name : ∀ name span, n = .name name span →
      name = String.ofList (Formula.unenclosed text.toList)) : err.PointsAt source text := by
  obtain ⟨range, operation | ⟨text', span, rfl, rfl⟩⟩ := h
  · refine .of_slice (range ▸ slice) nonempty ?_ ?_
    · rintro expected span rfl
      cases operation
    · cases err <;> trivial
  · exact .of_slice slice nonempty nofun (name _ _ rfl)

/-- Whatever the evaluator and the formula, the range of an error lies in the formula on character
    boundaries and is empty at the end only, and what the error quotes is the text in its range. -/
theorem evaluate_error_pointsAt {formula : String} {err : Error}
    (failed : e.evaluate formula = .error (.error err)) : ∃ text, err.PointsAt formula text := by
  cases parsed : Expr.parse formula with
  | error cause =>
      rw [evaluate, parsed] at failed
      cases failed
      exact Formula.exists_pointsAt_of_parse parsed
  | ok expr =>
      rw [evaluate_eq_of_parse parsed] at failed
      obtain ⟨n, node, raised⟩ := exists_isRaisedAt failed
      obtain ⟨text, slice, nonempty, name⟩ := Formula.slice_of_mem_subexpressions parsed node
      exact ⟨text, raised.pointsAt slice nonempty name⟩

/-- An unknown name in parentheses, and a character of two bytes. -/
theorem evaluate_error_pointsAt_name :
    ((ofTable .defaults).evaluate "m*( zz )" =
        .error (.error (.unresolvedIdentifier "zz" ⟨2, 8⟩)) ∧
      (Error.unresolvedIdentifier "zz" ⟨2, 8⟩).PointsAt "m*( zz )" "( zz )") ∧
    (ofTable .defaults).evaluate "2µ" = .error (.error (.unexpectedCharacter 'µ' ⟨1, 3⟩)) ∧
      (Error.unexpectedCharacter 'µ' ⟨1, 3⟩).PointsAt "2µ" "µ" := by
  have lexed : Token.lex "m*( zz )" =
      .ok [⟨.name, ⟨0, 1⟩, "m"⟩, ⟨.star, ⟨1, 2⟩, "*"⟩, ⟨.leftParen, ⟨2, 3⟩, "("⟩,
        ⟨.name, ⟨4, 6⟩, "zz"⟩, ⟨.rightParen, ⟨7, 8⟩, ")"⟩, ⟨.finish, .point 8, ""⟩] := by
    decide +kernel
  have parsed : Expr.parse "m*( zz )" =
      .ok (.binary .mul (.name "m" ⟨0, 1⟩) (.name "zz" ⟨2, 8⟩) ⟨0, 8⟩) := by
    have ends (level : Nat) := @Formula.stops_of_no_operator ⟨.finish, .point 8, ""⟩ rfl level []
    refine Formula.parse_of_reads lexed (.level (.name rfl) (.step rfl (by decide)
      (.level (.group rfl rfl (.level (.name rfl) (.stop ?_))) (.stop (ends 3)))
      (.stop (ends 1)))) (by simp)
    exact Formula.stops_of_no_operator rfl 1 _
  have unknown : (ofTable .defaults).evaluate "m*( zz )" =
      .error (.error (.unresolvedIdentifier "zz" ⟨2, 8⟩)) := by
    rw [evaluate_eq_of_parse parsed]
    decide +kernel
  have foreign : (ofTable .defaults).evaluate "2µ" =
      .error (.error (.unexpectedCharacter 'µ' ⟨1, 3⟩)) := by
    decide +kernel
  obtain ⟨text, points⟩ := evaluate_error_pointsAt unknown
  have part : Span.slice? ⟨2, 8⟩ "m*( zz )" = some "( zz )" := by decide +kernel
  obtain rfl : "( zz )" = text := Option.some.inj (part.symm.trans points.slice)
  obtain ⟨text, points'⟩ := evaluate_error_pointsAt foreign
  have part' : Span.slice? ⟨1, 3⟩ "2µ" = some "µ" := by decide +kernel
  obtain rfl : "µ" = text := Option.some.inj (part'.symm.trans points'.slice)
  exact ⟨⟨unknown, points⟩, foreign, points'⟩

end Evaluator

end Metrology
