/-
Module: Metrology.Proofs.GrammarDerivation
Layer: Proofs
Purpose: The stratified grammar of formulas and its agreement with the readers. Sums are chains of
  products, products chains of powers, powers chains of operands; each chain groups to the left. The
  readers climb levels instead: soundness turns a reading into a derivation, completeness a
  derivation into a reading, whatever follows it. So a formula has a tree exactly when its tokens
  are derivable and its numbers are literals, and the tree is the one of the only derivation.
Imports: Metrology.Proofs.GrammarRun, Metrology.Proofs.FormulaShape, Metrology.Proofs.LexingRun
Main exports: Rank, Category, Derives, Reads.sound, Derives.complete, Derives.shape_unique,
  parse_eq_ok_of_derives, parse_iff_derives
-/
import Metrology.Proofs.GrammarRun
import Metrology.Proofs.FormulaShape
import Metrology.Proofs.LexingRun

namespace Metrology.Formula

/-- The kinds of chain, loosest first. -/
inductive Rank where
  | sum
  | product
  | power
deriving DecidableEq, Repr, Inhabited

/-- The syntactic categories of formulas. -/
inductive Category where
  | chain (rank : Rank)
  | unary
  | primary
deriving DecidableEq, Repr, Inhabited

namespace Rank

/-- What a chain is made of. -/
def operand : Rank → Category
  | sum => .chain .product
  | product => .chain .power
  | power => .unary

/-- The tokens that join the operands of a chain, with what they stand for. -/
def operators : Rank → List (TokenKind × Operator)
  | sum => [(.plus, .add), (.minus, .sub)]
  | product => [(.star, .mul), (.slash, .div)]
  | power => [(.caret, .pow)]

end Rank

/-- `Derives category tokens shape`: the grammar derives the tokens from the category, and the shape
    is the tree of that derivation.

        sum     := product (('+' | '-') product)*
        product := power (('*' | '/') power)*
        power   := unary ('^' unary)*
        unary   := '-' unary | primary
        primary := NAME | NUMBER | '(' sum ')'

    A chain is its first operand, and each further operand takes all that stands before it as its
    left side. -/
inductive Derives : Category → List Token → Shape → Prop where
  | first {rank : Rank} {tokens : List Token} {shape : Shape}
      (operand : Derives rank.operand tokens shape) : Derives (.chain rank) tokens shape
  | more {rank : Rank} {front back : List Token} {token : Token} {op : Operator}
      {left right : Shape} (chain : Derives (.chain rank) front left)
      (joins : (token.kind, op) ∈ rank.operators) (operand : Derives rank.operand back right) :
      Derives (.chain rank) (front ++ token :: back) (.binary op left right)
  | negation {token : Token} {tokens : List Token} {shape : Shape} (kind : token.kind = .minus)
      (operand : Derives .unary tokens shape) : Derives .unary (token :: tokens) (.neg shape)
  | bare {tokens : List Token} {shape : Shape} (operand : Derives .primary tokens shape) :
      Derives .unary tokens shape
  | name {token : Token} (kind : token.kind = .name) : Derives .primary [token] (.name token.text)
  | number {token : Token} (kind : token.kind = .number) :
      Derives .primary [token] (.number token.text)
  | group {opening closing : Token} {tokens : List Token} {shape : Shape}
      (opens : opening.kind = .leftParen) (closes : closing.kind = .rightParen)
      (inner : Derives (.chain .sum) tokens shape) :
      Derives .primary (opening :: tokens ++ [closing]) shape

/-! ### Levels and ranks -/

namespace Rank

/-- The level at which the readers read a chain. -/
def level : Rank → Nat
  | sum => 1
  | product => 2
  | power => 3

theorem mem_operators_iff {rank : Rank} {kind : TokenKind} {op : Operator} :
    (kind, op) ∈ rank.operators ↔ kind.operator? = some op ∧ op.level = rank.level := by
  cases rank <;> cases kind <;> cases op <;> decide

end Rank

/-- The category that the readers read at a level. -/
def Category.ofLevel : Nat → Category
  | 1 => .chain .sum
  | 2 => .chain .product
  | 3 => .chain .power
  | _ => .unary

/-- The chains that an operator makes. -/
def Operator.rank : Operator → Rank
  | add => .sum
  | sub => .sum
  | mul => .product
  | div => .product
  | pow => .power

theorem Operator.level_rank (op : Operator) : op.rank.level = op.level := by cases op <;> rfl

theorem Operator.ofLevel_level (op : Operator) : Category.ofLevel op.level = .chain op.rank := by
  cases op <;> rfl

theorem Operator.ofLevel_level_succ (op : Operator) :
    Category.ofLevel (op.level + 1) = op.rank.operand := by
  cases op <;> rfl

/-- A chain of one operand only is of every looser category too. -/
theorem Derives.loosen {low high : Nat} {tokens : List Token} {shape : Shape}
    (h : Derives (.ofLevel high) tokens shape) (pos : 1 ≤ low) (le : low ≤ high) :
    Derives (.ofLevel low) tokens shape := by
  induction le with
  | refl => exact h
  | @step middle le ih =>
      apply ih
      match middle, Nat.le_trans pos le, h with
      | 1, _, h => exact @Derives.first .sum _ _ h
      | 2, _, h => exact @Derives.first .product _ _ h
      | 3, _, h => exact @Derives.first .power _ _ h
      | n + 4, _, h => exact h

/-- A derivation followed by an operator of its level and a tighter derivation is a longer chain. -/
theorem Derives.extend {front back : List Token} {token : Token} {op : Operator}
    {left right : Shape} (h : Derives (.ofLevel op.level) front left)
    (found : token.kind.operator? = some op) (h' : Derives (.ofLevel (op.level + 1)) back right) :
    Derives (.ofLevel op.level) (front ++ token :: back) (.binary op left right) := by
  rw [op.ofLevel_level] at h ⊢
  rw [op.ofLevel_level_succ] at h'
  exact .more h (Rank.mem_operators_iff.2 ⟨found, op.level_rank.symm⟩) h'

/-! ### Readings are derivations -/

/-- What a reading shows. A chain reader is handed the tree of tokens before its input, derived at
    some level `high`, and no operator above `high` comes next. -/
def Task.Sound : Task → List Token → Expr → List Token → Prop
  | .level l, tokens, e, rest =>
      1 ≤ l → ∃ used shape, tokens = used ++ rest ∧ Derives (.ofLevel l) used shape ∧
        shape.Fits e ∧ Stops l rest
  | .operand, tokens, e, rest =>
      ∃ used shape, tokens = used ++ rest ∧ Derives .unary used shape ∧ shape.Fits e
  | .chain l left, tokens, e, rest =>
      1 ≤ l → ∀ high before shape, l ≤ high → Stops (high + 1) tokens →
        Derives (.ofLevel high) before shape → shape.Fits left →
        ∃ used shape', tokens = used ++ rest ∧ Derives (.ofLevel l) (before ++ used) shape' ∧
          shape'.Fits e ∧ Stops l rest

theorem Reads.sound {task : Task} {tokens rest : List Token} {e : Expr}
    (h : Reads task tokens e rest) : task.Sound tokens e rest := by
  induction h with
  | @name token rest kind => exact ⟨[token], _, rfl, .bare (.name kind), .name⟩
  | @number token rest value kind reading =>
      exact ⟨[token], _, rfl, .bare (.number kind), .number reading⟩
  | @minus token tokens rest e kind _ ih =>
      obtain ⟨used, shape, rfl, derived, fits⟩ := ih
      exact ⟨token :: used, _, rfl, .negation kind derived, .neg fits⟩
  | @group opening closing tokens rest e opens closes _ ih =>
      obtain ⟨used, shape, rfl, derived, fits, _⟩ := ih (Nat.le_refl 1)
      refine ⟨opening :: used ++ [closing], shape, by simp, ?_, fits.withSpan _⟩
      exact .bare (.group opens closes derived)
  | @level l tokens middle rest left e _ _ ihFirst ihMore =>
      intro pos
      obtain ⟨first, shape, rfl, derived, fits⟩ := ihFirst
      -- an operand is derived at every level above powers
      obtain ⟨used, shape', rfl, derived', fits', stops⟩ := ihMore pos (l + 4) first shape
        (Nat.le_add_right l 4) (stops_of_three_lt (by omega) _) derived fits
      exact ⟨first ++ used, shape', by simp, derived', fits', stops⟩
  | @stop l left tokens stops =>
      intro pos high before shape le _ derived fits
      exact ⟨[], shape, rfl, by simpa using derived.loosen pos le, fits, stops⟩
  | @step l left right e token op tokens middle rest found reaches _ _ ihOperand ihMore =>
      intro pos high before shape le stops derived fits
      obtain ⟨operand, shapeRight, rfl, derivedRight, fitsRight, stopsRight⟩ :=
        ihOperand (Nat.le_add_left 1 op.level)
      -- what stands before is a chain of the operator's level, since nothing tighter came next
      have below : op.level ≤ high := Nat.le_of_lt_succ (stops op found)
      have chain := (derived.loosen op.level_pos below).extend found derivedRight
      obtain ⟨used, shape', rfl, derived', fits', stops'⟩ :=
        ihMore pos op.level _ _ reaches stopsRight chain (.binary fits fitsRight)
      exact ⟨token :: operand ++ used, shape', by simp, by simpa using derived', fits', stops'⟩

/-! ### Derivations are readings -/

/-- Every number among the tokens is a literal. -/
def NumbersReadable (tokens : List Token) : Prop :=
  ∀ token ∈ tokens, token.kind = .number → ∃ value, Literal.read token.text = .ok value

theorem numbersReadable_nil : NumbersReadable [] := by
  intro token mem
  cases mem

theorem numbersReadable_append {front back : List Token} :
    NumbersReadable (front ++ back) ↔ NumbersReadable front ∧ NumbersReadable back := by
  simp only [NumbersReadable, List.mem_append, or_imp, forall_and]

theorem numbersReadable_cons {token : Token} {tokens : List Token} :
    NumbersReadable (token :: tokens) ↔
      (token.kind = .number → ∃ value, Literal.read token.text = .ok value) ∧
        NumbersReadable tokens := by
  simp only [NumbersReadable, List.mem_cons, or_imp, forall_and, forall_eq]

/-- A chain reader goes on where the reader of a tighter level has stopped. -/
theorem Reads.chain_of_tighter {l : Nat} {task : Task} {tokens middle rest : List Token}
    {inner e : Expr} (h : Reads task tokens inner middle) :
    ∀ left, task = .chain (l + 1) left → Reads (.chain l inner) middle e rest →
      Reads (.chain l left) tokens e rest := by
  induction h with
  | stop _ =>
      intro left same more
      cases same
      exact more
  | step found reaches operand _ _ ihMore =>
      intro left same more
      cases same
      exact .step found (Nat.le_of_succ_le reaches) operand (ihMore _ rfl more)
  | _ => intro left same; cases same

/-- Reading a level is reading the next tighter one first. -/
theorem Reads.level_of_tighter {l : Nat} {tokens middle rest : List Token} {inner e : Expr}
    (h : Reads (.level (l + 1)) tokens inner middle)
    (more : Reads (.chain l inner) middle e rest) : Reads (.level l) tokens e rest := by
  cases h with
  | level first chain => exact .level first (chain.chain_of_tighter _ rfl more)

/-- How the readers read the tokens of a derivation, whatever follows them. A chain is left to the
    chain reader as soon as its last operand has been read, so that it can grow. -/
def Category.Readable : Category → List Token → Shape → Prop
  | .chain rank, tokens, shape =>
      ∀ after, Stops (rank.level + 1) after → ∃ inner, shape.Fits inner ∧
        ∀ e rest, Reads (.chain rank.level inner) after e rest →
          Reads (.level rank.level) (tokens ++ after) e rest
  | _, tokens, shape =>
      ∀ after, ∃ e, shape.Fits e ∧ Reads .operand (tokens ++ after) e after

/-- A chain that nothing goes on with is read as a whole. -/
theorem Category.Readable.level {rank : Rank} {tokens : List Token} {shape : Shape}
    (h : Readable (.chain rank) tokens shape) {after : List Token}
    (stops : Stops rank.level after) :
    ∃ e, shape.Fits e ∧ Reads (.level rank.level) (tokens ++ after) e after := by
  obtain ⟨inner, fits, grow⟩ := h after (stops.mono (Nat.le_succ _))
  exact ⟨inner, fits, grow inner after (.stop stops)⟩

/-- An operand of a chain is read by the next tighter level. -/
theorem Category.Readable.operand {rank : Rank} {tokens : List Token} {shape : Shape}
    (h : rank.operand.Readable tokens shape) {after : List Token}
    (stops : Stops (rank.level + 1) after) :
    ∃ e, shape.Fits e ∧ Reads (.level (rank.level + 1)) (tokens ++ after) e after := by
  cases rank with
  | sum => exact @Readable.level .product _ _ h _ stops
  | product => exact @Readable.level .power _ _ h _ stops
  | power =>
      obtain ⟨e, fits, reads⟩ := h after
      exact ⟨e, fits, .level reads (.stop stops)⟩

theorem Derives.complete {category : Category} {tokens : List Token} {shape : Shape}
    (h : Derives category tokens shape) (readable : NumbersReadable tokens) :
    category.Readable tokens shape := by
  induction h with
  | first _ ih =>
      intro after stops
      obtain ⟨inner, fits, reads⟩ := (ih readable).operand stops
      exact ⟨inner, fits, fun e rest more => reads.level_of_tighter more⟩
  | @more rank front back token op left right _ joins _ ihChain ihOperand =>
      intro after stops
      obtain ⟨readableFront, readableRest⟩ := numbersReadable_append.1 readable
      obtain ⟨_, readableBack⟩ := numbersReadable_cons.1 readableRest
      obtain ⟨found, level⟩ := Rank.mem_operators_iff.1 joins
      have stopsFront : Stops (rank.level + 1) (token :: back ++ after) := by
        intro other same
        rw [found] at same
        cases same
        exact Nat.lt_succ_of_le (Nat.le_of_eq level)
      obtain ⟨l, fitsLeft, grow⟩ := ihChain readableFront _ stopsFront
      obtain ⟨r, fitsRight, reads⟩ := (ihOperand readableBack).operand stops
      refine ⟨.binary op l r (l.span.merge r.span), .binary fitsLeft fitsRight, ?_⟩
      intro e rest more
      rw [List.append_assoc]
      rw [← level] at reads
      exact grow e rest (.step found (Nat.le_of_eq level.symm) reads more)
  | negation kind _ ih =>
      intro after
      obtain ⟨e, fits, reads⟩ := ih (numbersReadable_cons.1 readable).2 after
      exact ⟨_, .neg fits, .minus kind reads⟩
  | bare _ ih => exact ih readable
  | name kind => exact fun after => ⟨_, .name, .name kind⟩
  | number kind =>
      intro after
      obtain ⟨value, reading⟩ := (numbersReadable_cons.1 readable).1 kind
      exact ⟨_, .number reading, .number kind reading⟩
  | @group opening closing tokens shape opens closes _ ih =>
      intro after
      obtain ⟨_, readableInner⟩ := numbersReadable_cons.1 (numbersReadable_append.1 readable).1
      have stops : Stops Rank.sum.level (closing :: after) :=
        stops_of_no_operator (by rw [closes]; rfl) _ _
      obtain ⟨e, fits, reads⟩ := (ih readableInner).level stops
      refine ⟨_, fits.withSpan (opening.span.merge closing.span), ?_⟩
      simpa using Reads.group opens closes reads

/-! ### What the tokens say about the shape -/

theorem Rank.kind_ne_of_mem {rank : Rank} {kind : TokenKind} {op : Operator}
    (h : (kind, op) ∈ rank.operators) : kind ≠ .number ∧ kind ≠ .finish := by
  cases rank <;> cases kind <;> cases op <;> revert h <;> decide

/-- The number texts of a derived shape are those of the number tokens, in order. -/
theorem Derives.numberTexts_eq {category : Category} {tokens : List Token} {shape : Shape}
    (h : Derives category tokens shape) :
    shape.numberTexts = (tokens.filter (·.kind = .number)).map (·.text) := by
  induction h with
  | first _ ih => exact ih
  | more _ joins _ ihChain ihOperand =>
      simp [Shape.numberTexts, ihChain, ihOperand, (Rank.kind_ne_of_mem joins).1]
  | negation kind _ ih => simp [Shape.numberTexts, ih, kind]
  | bare _ ih => exact ih
  | name kind => simp [Shape.numberTexts, kind]
  | number kind => simp [Shape.numberTexts, kind]
  | group opens closes _ ih => simp [ih, opens, closes]

/-- The numbers of a derivation whose shape a tree fits are literals. -/
theorem Derives.numbersReadable {category : Category} {tokens : List Token} {shape : Shape}
    {e : Expr} (h : Derives category tokens shape) (fits : shape.Fits e) :
    NumbersReadable tokens := by
  intro token mem kind
  apply fits.readable
  rw [h.numberTexts_eq]
  exact List.mem_map_of_mem (List.mem_filter.2 ⟨mem, by simp [kind]⟩)

/-- No derivation uses the token at the end of a formula. -/
theorem Derives.kind_ne_finish {category : Category} {tokens : List Token} {shape : Shape}
    (h : Derives category tokens shape) : ∀ token ∈ tokens, token.kind ≠ .finish := by
  induction h with
  | first _ ih => exact ih
  | more _ joins _ ihChain ihOperand =>
      simp only [List.mem_append, List.mem_cons, or_imp, forall_and, forall_eq]
      exact ⟨ihChain, (Rank.kind_ne_of_mem joins).2, ihOperand⟩
  | negation kind _ ih => exact List.forall_mem_cons.2 ⟨by simp [kind], ih⟩
  | bare _ ih => exact ih
  | name kind => simp [kind]
  | number kind => simp [kind]
  | group opens closes _ ih => simpa [opens, closes, or_imp, forall_and] using ih

/-- The grammar is unambiguous: tokens have one shape at most. -/
theorem Derives.shape_unique {rank : Rank} {tokens : List Token} {shape other : Shape}
    (readable : NumbersReadable tokens) (h : Derives (.chain rank) tokens shape)
    (h' : Derives (.chain rank) tokens other) : other = shape := by
  have stops : Stops rank.level [] := trivial
  obtain ⟨e, fits, reads⟩ := (h.complete readable).level stops
  obtain ⟨e', fits', reads'⟩ := (h'.complete readable).level stops
  obtain ⟨rfl, _⟩ := reads.unique reads'
  exact fits'.shape_eq fits (h'.numberTexts_eq.trans h.numberTexts_eq.symm)

/-! ### Formulas and derivations -/

/-- A formula whose tokens are derivable and whose numbers are literals has a tree of that shape. -/
theorem parse_eq_ok_of_derives {source : String} {body : List Token} {finish : Token}
    {shape : Shape} (lexed : Token.lex source = .ok (body ++ [finish]))
    (kind : finish.kind = .finish) (readable : NumbersReadable body)
    (h : Derives (.chain .sum) body shape) :
    ∃ e, Expr.parse source = .ok e ∧ shape.Fits e := by
  have stops : Stops Rank.sum.level [finish] := stops_of_no_operator (by rw [kind]; rfl) _ _
  obtain ⟨e, fits, reads⟩ := (h.complete readable).level stops
  refine ⟨e, ?_, fits⟩
  refine parse_of_reads lexed reads ?_
  intro token mem
  cases mem
  exact kind

/-- What stands before the first `finish` token. -/
theorem takeWhile_eq_front {front rest : List Token}
    (others : ∀ token ∈ front, token.kind ≠ .finish)
    (closed : ∀ token ∈ rest.head?, token.kind = .finish) :
    (front ++ rest).takeWhile (·.kind ≠ .finish) = front := by
  rw [List.takeWhile_append_of_pos (by simpa using others)]
  cases rest with
  | nil => simp
  | cons token rest => simp [closed token rfl]

/-- A formula that has a tree is derivable, and the tree has the shape of the derivation. -/
theorem derives_of_parse_eq_ok {source : String} {body : List Token} {finish : Token} {e : Expr}
    (lexed : Token.lex source = .ok (body ++ [finish])) (kind : finish.kind = .finish)
    (others : ∀ token ∈ body, token.kind ≠ .finish) (parsed : Expr.parse source = .ok e) :
    ∃ shape, Derives (.chain .sum) body shape ∧ shape.Fits e := by
  simp only [Expr.parse, lexed] at parsed
  obtain ⟨rest, reads, closed⟩ := ofTokens_eq_ok_iff.1 parsed
  obtain ⟨used, shape, split, derived, fits, _⟩ := reads.sound (Nat.le_refl 1)
  -- the reading stops at the only `finish` token, so it has used the whole body
  have whole : body = used := by
    have closedBody : ∀ token ∈ [finish].head?, token.kind = .finish := by simp [kind]
    rw [← takeWhile_eq_front others closedBody, split]
    exact takeWhile_eq_front derived.kind_ne_finish closed
  exact ⟨shape, whole ▸ derived, fits⟩

/-- A formula has a tree exactly when its numbers are literals and its tokens, but for the closing
    one, are derivable as a sum; and the tree then has the shape of their only derivation. -/
theorem parse_iff_derives {source : String} {tokens : List Token}
    (lexed : Token.lex source = .ok tokens) :
    ∃ body stop, tokens = body ++ [⟨.finish, .point stop, ""⟩] ∧
      ((∃ e, Expr.parse source = .ok e) ↔
        (∀ token ∈ body, token.kind = .number → ∃ value, Literal.read token.text = .ok value) ∧
          ∃ shape, Derives (.chain .sum) body shape) ∧
      ∀ e, Expr.parse source = .ok e →
        ∃ shape, Derives (.chain .sum) body shape ∧ shape.Fits e ∧
          ∀ other, Derives (.chain .sum) body other → other = shape := by
  obtain ⟨body, rfl, others⟩ := (Token.scans_iff.2 lexed).ends
  have sound : ∀ e, Expr.parse source = .ok e →
      ∃ shape, Derives (.chain .sum) body shape ∧ shape.Fits e ∧ NumbersReadable body := by
    intro e parsed
    obtain ⟨shape, derived, fits⟩ := derives_of_parse_eq_ok lexed rfl others parsed
    exact ⟨shape, derived, fits, derived.numbersReadable fits⟩
  refine ⟨body, _, rfl, ⟨?_, ?_⟩, ?_⟩
  · rintro ⟨e, parsed⟩
    obtain ⟨shape, derived, _, readable⟩ := sound e parsed
    exact ⟨readable, shape, derived⟩
  · rintro ⟨readable, shape, derived⟩
    obtain ⟨e, parsed, _⟩ := parse_eq_ok_of_derives lexed rfl readable derived
    exact ⟨e, parsed⟩
  · intro e parsed
    obtain ⟨shape, derived, fits, readable⟩ := sound e parsed
    exact ⟨shape, derived, fits, fun other derived' => derived.shape_unique readable derived'⟩

/-- A minus sign binds tighter than a power, and powers group to the left. -/
theorem parse_iff_derives_powers :
    (∃ tokens, Token.lex "m^-2^s" = .ok tokens) ∧
      ∃ e, Expr.parse "m^-2^s" = .ok e ∧
        Shape.Fits (.binary .pow (.binary .pow (.name "m") (.neg (.number "2"))) (.name "s"))
          e := by
  have lexed : Token.lex "m^-2^s" =
      .ok ([⟨.name, ⟨0, 1⟩, "m"⟩, ⟨.caret, ⟨1, 2⟩, "^"⟩, ⟨.minus, ⟨2, 3⟩, "-"⟩,
        ⟨.number, ⟨3, 4⟩, "2"⟩, ⟨.caret, ⟨4, 5⟩, "^"⟩, ⟨.name, ⟨5, 6⟩, "s"⟩] ++
        [⟨.finish, .point 6, ""⟩]) := by decide +kernel
  obtain ⟨body, stop, split, parses, unique⟩ := parse_iff_derives lexed
  obtain ⟨rfl, _⟩ := List.append_inj' split rfl
  have m : Derives .primary [⟨.name, ⟨0, 1⟩, "m"⟩] (.name "m") := .name rfl
  have exponent : Derives .unary [⟨.minus, ⟨2, 3⟩, "-"⟩, ⟨.number, ⟨3, 4⟩, "2"⟩]
      (.neg (.number "2")) := .negation rfl (.bare (.number rfl))
  have s : Derives .unary [⟨.name, ⟨5, 6⟩, "s"⟩] (.name "s") := .bare (.name rfl)
  have inner : Derives (.chain .power) ([_] ++ ⟨.caret, ⟨1, 2⟩, "^"⟩ :: [_, _])
      (.binary .pow (.name "m") (.neg (.number "2"))) :=
    .more (.first (.bare m)) (by decide) exponent
  have outer : Derives (.chain .power) (([_] ++ _ :: [_, _]) ++ ⟨.caret, ⟨4, 5⟩, "^"⟩ :: [_])
      (.binary .pow (.binary .pow (.name "m") (.neg (.number "2"))) (.name "s")) :=
    .more inner (by decide) s
  have product : Derives (.chain .product) _ _ := .first outer
  have derived : Derives (.chain .sum) _ _ := .first product
  have readable : ∃ value, Literal.read "2" = .ok value := ⟨.whole 2, by decide +kernel⟩
  obtain ⟨e, parsed⟩ := parses.2 ⟨by simp [readable], _, derived⟩
  obtain ⟨shape, _, fits, only⟩ := unique e parsed
  exact ⟨⟨_, lexed⟩, e, parsed, only _ derived ▸ fits⟩

end Metrology.Formula
