/-
Module: Metrology.Proofs.SpanFaithfulness
Layer: Proofs
Purpose: Ranges of a tree cut out what they say. Every subexpression of a parsed formula stands for
  the tokens that its range covers: read alone at the loosest level they give it again, whatever
  stood around them. With the lexer started at the first of them and stopped behind the last, the
  part of the formula in the range of a subexpression parses to that subexpression, moved to the
  front.
Imports: Metrology.Proofs.LexingRun, Metrology.Proofs.GrammarDerivation
Main exports: Span.slice?, Expr.mapOffsets, Expr.bare, Reads.mapOffsets, Stands, Spans,
  Task.Spanned, Reads.spanned, Stands.parse, exists_stands_of_parse, Token.Scans.slice,
  exists_slice_of_parse, parse_slice_of_mem_subexpressions
-/
import Metrology.Proofs.LexingRun
import Metrology.Proofs.GrammarDerivation

namespace Metrology

/-! ### Parts of a text -/

/-- The characters before and behind a byte offset, where that is a boundary between characters. -/
def splitAtByte? : Nat → List Char → Option (List Char × List Char)
  | 0, cs => some ([], cs)
  | _ + 1, [] => none
  | n + 1, c :: cs =>
    if c.utf8Size ≤ n + 1 then
      (splitAtByte? (n + 1 - c.utf8Size) cs).map fun (front, back) => (c :: front, back)
    else none

theorem byteLength_eq_zero_iff {cs : List Char} : byteLength cs = 0 ↔ cs = [] := by
  cases cs with
  | nil => simp
  | cons c cs =>
      have pos := c.utf8Size_pos
      simp only [byteLength_cons, reduceCtorEq, iff_false]
      omega

theorem splitAtByte?_eq_some_iff {n : Nat} {cs front back : List Char} :
    splitAtByte? n cs = some (front, back) ↔ cs = front ++ back ∧ byteLength front = n := by
  fun_induction splitAtByte? n cs generalizing front with
  | case1 cs =>
      rw [byteLength_eq_zero_iff]
      constructor
      · rintro ⟨⟩
        exact ⟨rfl, rfl⟩
      · rintro ⟨rfl, rfl⟩
        rfl
  | case2 n =>
      refine iff_of_false nofun ?_
      rintro ⟨empty, length⟩
      rw [(List.append_eq_nil_iff.1 empty.symm).1] at length
      cases length
  | case3 n c cs fits ih =>
      rw [Option.map_eq_some_iff]
      constructor
      · rintro ⟨⟨front, back⟩, found, same⟩
        cases same
        obtain ⟨rfl, length⟩ := ih.1 found
        refine ⟨rfl, ?_⟩
        rw [byteLength_cons, length]
        omega
      · rintro ⟨same, length⟩
        cases front with
        | nil => cases length
        | cons d front =>
            obtain ⟨rfl, rfl⟩ := List.cons.inj same
            rw [byteLength_cons] at length
            exact ⟨(front, back), ih.2 ⟨rfl, by omega⟩, rfl⟩
  | case4 n c cs large =>
      refine iff_of_false nofun ?_
      rintro ⟨same, length⟩
      cases front with
      | nil => cases length
      | cons d front =>
          obtain ⟨rfl, rfl⟩ := List.cons.inj same
          rw [byteLength_cons] at length
          omega

/-- The text in a range, whose ends must be boundaries between characters. -/
def Span.slice? (span : Span) (source : String) : Option String :=
  if span.start ≤ span.stop then
    (splitAtByte? span.start source.toList).bind fun (_, rest) =>
      (splitAtByte? span.length rest).map fun (text, _) => String.ofList text
  else none

/-- A range cuts out a text that begins at its start and takes as many bytes as it covers. -/
theorem Span.slice?_eq_some_iff {span : Span} {source text : String} :
    span.slice? source = some text ↔
      ∃ before after, source.toList = before ++ (text.toList ++ after) ∧
        byteLength before = span.start ∧ span.start + byteLength text.toList = span.stop := by
  unfold slice? length
  constructor
  · intro found
    split at found
    · next ordered =>
        obtain ⟨⟨before, rest⟩, atStart, found⟩ := Option.bind_eq_some_iff.1 found
        obtain ⟨⟨inside, after⟩, atStop, rfl⟩ := Option.map_eq_some_iff.1 found
        obtain ⟨whole, start⟩ := splitAtByte?_eq_some_iff.1 atStart
        obtain ⟨rfl, stop⟩ := splitAtByte?_eq_some_iff.1 atStop
        refine ⟨before, after, ?_, start, ?_⟩
        · rw [whole, String.toList_ofList]
        · rw [String.toList_ofList, stop]
          omega
    · cases found
  · rintro ⟨before, after, whole, start, stop⟩
    have atStart := splitAtByte?_eq_some_iff.2 ⟨whole, start⟩
    have atStop : splitAtByte? (span.stop - span.start) (text.toList ++ after) =
        some (text.toList, after) := splitAtByte?_eq_some_iff.2 ⟨rfl, by omega⟩
    have ordered : span.start ≤ span.stop := by omega
    simp [ordered, atStart, atStop]

namespace Formula

/-! ### Trees at another place -/

/-- The tree of the same formula at another place. -/
def Expr.mapOffsets (move : Nat → Nat) : Expr → Expr
  | name text span => .name text (span.mapOffsets move)
  | number value span => .number value (span.mapOffsets move)
  | neg operand span => .neg (operand.mapOffsets move) (span.mapOffsets move)
  | binary op left right span =>
    .binary op (left.mapOffsets move) (right.mapOffsets move) (span.mapOffsets move)

@[simp] theorem Expr.span_mapOffsets (move : Nat → Nat) (e : Expr) :
    (e.mapOffsets move).span = e.span.mapOffsets move := by
  cases e <;> rfl

theorem Expr.mapOffsets_withSpan (move : Nat → Nat) (e : Expr) (span : Span) :
    (e.withSpan span).mapOffsets move = (e.mapOffsets move).withSpan (span.mapOffsets move) := by
  cases e <;> rfl

/-- The tree with nothing in its ranges; trees that differ in their ranges only are alike in it. -/
def Expr.bare (e : Expr) : Expr := e.mapOffsets fun _ => 0

/-- The token with nothing in its range. -/
def Token.bare (token : Token) : Token := token.mapOffsets fun _ => 0

/-- A task of the readers at another place. -/
def Task.mapOffsets (move : Nat → Nat) : Task → Task
  | level l => level l
  | operand => operand
  | chain l left => chain l (left.mapOffsets move)

theorem stops_map {level : Nat} {tokens : List Token} {move : Nat → Nat} (h : Stops level tokens) :
    Stops level (tokens.map (Token.mapOffsets move)) := by
  cases tokens with
  | nil => trivial
  | cons token tokens => exact h

section Moved

variable {move : Nat → Nat} (mono : ∀ {m n}, m ≤ n → move m ≤ move n)

include mono

/-- Ranges are merged alike wherever they are. -/
theorem mapOffsets_merge (a b : Span) :
    (a.merge b).mapOffsets move = (a.mapOffsets move).merge (b.mapOffsets move) := by
  have least : move (min a.start b.start) = min (move a.start) (move b.start) := by
    rcases Nat.le_total a.start b.start with le | le
    · rw [Nat.min_eq_left le, Nat.min_eq_left (mono le)]
    · rw [Nat.min_eq_right le, Nat.min_eq_right (mono le)]
  have greatest : move (max a.stop b.stop) = max (move a.stop) (move b.stop) := by
    rcases Nat.le_total a.stop b.stop with le | le
    · rw [Nat.max_eq_right le, Nat.max_eq_right (mono le)]
    · rw [Nat.max_eq_left le, Nat.max_eq_left (mono le)]
  rw [Span.merge, Span.mapOffsets, least, greatest]
  rfl

/-- The readers read the same tree at another place. -/
theorem Reads.mapOffsets {task : Task} {tokens rest : List Token} {e : Expr}
    (h : Reads task tokens e rest) :
    Reads (task.mapOffsets move) (tokens.map (Token.mapOffsets move)) (e.mapOffsets move)
      (rest.map (Token.mapOffsets move)) := by
  induction h with
  | name kind => exact .name kind
  | number kind reading => exact .number kind reading
  | minus kind _ ih =>
      rw [Expr.mapOffsets, mapOffsets_merge mono, ← Expr.span_mapOffsets]
      exact .minus kind ih
  | @group opening closing tokens rest e opens closes _ ih =>
      rw [Expr.mapOffsets_withSpan, mapOffsets_merge mono]
      have moved : Reads (.level 1) (tokens.map (Token.mapOffsets move)) (e.mapOffsets move)
          (closing.mapOffsets move :: rest.map (Token.mapOffsets move)) := ih
      exact @Reads.group (opening.mapOffsets move) (closing.mapOffsets move) _ _ _ opens closes
        moved
  | level _ _ ihFirst ihMore => exact .level ihFirst ihMore
  | stop stops => exact .stop (stops_map stops)
  | step found reaches _ _ ihOperand ihMore =>
      rw [Task.mapOffsets, Expr.mapOffsets, mapOffsets_merge mono, ← Expr.span_mapOffsets,
        ← Expr.span_mapOffsets] at ihMore
      exact .step found reaches ihOperand ihMore

end Moved

/-! ### What a tree stands for -/

/-- The range runs from the start of the first token to the end of the last one. -/
def Covers (tokens : List Token) (span : Span) : Prop :=
  ∃ first last, tokens.head? = some first ∧ tokens.getLast? = some last ∧
    span = ⟨first.span.start, last.span.stop⟩

theorem Covers.singleton (token : Token) : Covers [token] token.span :=
  ⟨token, token, rfl, rfl, rfl⟩

/-- The merged range of two parts covers what stands between them too. -/
theorem Covers.merge {front middle back : List Token} {a b : Span} (coversFront : Covers front a)
    (coversBack : Covers back b)
    (ordered : (front ++ middle ++ back).Pairwise Token.Precedes) :
    Covers (front ++ middle ++ back) (a.merge b) := by
  obtain ⟨first, last, isFirst, isLast, rfl⟩ := coversFront
  obtain ⟨first', last', isFirst', isLast', rfl⟩ := coversBack
  rw [List.append_assoc] at ordered
  have before := (List.pairwise_append.1 ordered).2.2
  have starts := (before first (List.mem_of_mem_head? isFirst) first'
    (List.mem_append_right _ (List.mem_of_mem_head? isFirst'))).1
  have stops := (before last (List.mem_of_getLast? isLast) last'
    (List.mem_append_right _ (List.mem_of_getLast? isLast'))).2
  refine ⟨first, last', ?_, ?_, ?_⟩
  · simp [isFirst]
  · simp [isLast']
  · simp [Span.merge, Nat.min_eq_left starts, Nat.max_eq_right stops]

/-- A tree stands for the tokens in its range: the loosest level reads it from them alone. -/
structure Stands (e : Expr) (tokens : List Token) : Prop where
  covers : Covers tokens e.span
  reads : ∀ after, Stops 1 after → Reads (.level 1) (tokens ++ after) e after

/-- A tree stands for some of the tokens. -/
def Placed (tokens : List Token) (e : Expr) : Prop :=
  ∃ front part back, tokens = front ++ part ++ back ∧ Stands e part

theorem Placed.widen {tokens : List Token} {e : Expr} (h : Placed tokens e)
    (front back : List Token) : Placed (front ++ tokens ++ back) e := by
  obtain ⟨before, part, after, rfl, stands⟩ := h
  exact ⟨front ++ before, part, after ++ back, by simp, stands⟩

/-- A tree covers the tokens, and each of its subexpressions stands for some of them. -/
structure Spans (tokens : List Token) (e : Expr) : Prop where
  covers : Covers tokens e.span
  placed : ∀ n ∈ e.subexpressions, Placed tokens n

/-- A tree read by the loosest level stands for its tokens; of the trees in it nothing else has to
    be shown. -/
theorem Spans.of_children {tokens : List Token} {e : Expr} (covers : Covers tokens e.span)
    (reads : ∀ after, Stops 1 after → Reads (.level 1) (tokens ++ after) e after)
    (children : ∀ n ∈ e.subexpressions, n = e ∨ Placed tokens n) : Spans tokens e := by
  refine ⟨covers, fun n mem => ?_⟩
  rcases children n mem with rfl | placed
  · exact ⟨[], tokens, [], by simp, covers, reads⟩
  · exact placed

/-- An operand is also read by the loosest level. -/
theorem Spans.of_operand {tokens : List Token} {e : Expr} (covers : Covers tokens e.span)
    (reads : ∀ after, Reads .operand (tokens ++ after) e after)
    (children : ∀ n ∈ e.subexpressions, n = e ∨ Placed tokens n) : Spans tokens e :=
  .of_children covers (fun after stops => .level (reads after) (.stop stops)) children

/-- Where operators up to a level may follow the tokens of a tree, each level up to that goes on
    behind them with the tree as its left side. -/
def Grows (high : Nat) (tokens : List Token) (left : Expr) : Prop :=
  ∀ l, 1 ≤ l → l ≤ high → ∀ after, Stops (high + 1) after → ∀ e rest,
    Reads (.chain l left) after e rest → Reads (.level l) (tokens ++ after) e rest

theorem Grows.reads {high l : Nat} {tokens after : List Token} {left : Expr}
    (h : Grows high tokens left) (pos : 1 ≤ l) (le : l ≤ high) (stops : Stops l after) :
    Reads (.level l) (tokens ++ after) left after :=
  h l pos le after (stops.mono (Nat.le_succ_of_le le)) left after (.stop stops)

/-- What a reading shows: the tokens used and nothing else decide what is read. A chain reader is
    handed a tree of tokens before its input that can grow by what comes next. -/
def Task.Spanned : Task → List Token → Expr → List Token → Prop
  | .level l, tokens, e, rest =>
      1 ≤ l → tokens.Pairwise Token.Precedes → ∃ used, tokens = used ++ rest ∧ Spans used e ∧
        ∀ after, Stops l after → Reads (.level l) (used ++ after) e after
  | .operand, tokens, e, rest =>
      tokens.Pairwise Token.Precedes → ∃ used, tokens = used ++ rest ∧ Spans used e ∧
        ∀ after, Reads .operand (used ++ after) e after
  | .chain l left, tokens, e, rest =>
      1 ≤ l → ∀ high before, l ≤ high → Stops (high + 1) tokens →
        (before ++ tokens).Pairwise Token.Precedes → Spans before left → Grows high before left →
        ∃ used, tokens = used ++ rest ∧ Spans (before ++ used) e ∧
          ∀ after, Stops l after → Reads (.level l) (before ++ used ++ after) e after

/-- A token that is read as a tree without children. -/
theorem Spans.leaf {token : Token} {e : Expr} (span : e.span = token.span)
    (alone : e.subexpressions = [e]) (reads : ∀ after, Reads .operand (token :: after) e after) :
    Spans [token] e := by
  have covers : Covers [token] e.span := span ▸ Covers.singleton token
  apply Spans.of_operand covers reads
  intro n mem
  rw [alone] at mem
  exact .inl (List.mem_singleton.1 mem)

theorem Spans.neg {token : Token} {used : List Token} {e : Expr} (h : Spans used e)
    (ordered : (token :: used).Pairwise Token.Precedes)
    (reads : ∀ after, Reads .operand (token :: used ++ after)
      (.neg e (token.span.merge e.span)) after) :
    Spans (token :: used) (.neg e (token.span.merge e.span)) := by
  have covers : Covers ([token] ++ [] ++ used) (token.span.merge e.span) :=
    (Covers.singleton token).merge h.covers ordered
  apply Spans.of_operand covers reads
  intro n mem
  rcases List.mem_cons.1 mem with same | inner
  · exact .inl same
  · exact .inr (by simpa using (h.placed n inner).widen [token] [])

theorem Expr.mem_subexpressions_withSpan {e n : Expr} {span : Span}
    (mem : n ∈ (e.withSpan span).subexpressions) : n = e.withSpan span ∨ n ∈ e.subexpressions := by
  cases e with
  | name | number => exact .inl (List.mem_singleton.1 mem)
  | neg | binary =>
      rcases List.mem_cons.1 mem with same | inner
      · exact .inl same
      · exact .inr (List.mem_cons_of_mem _ inner)

theorem Spans.group {opening closing : Token} {used : List Token} {e : Expr} (h : Spans used e)
    (ordered : (opening :: used ++ [closing]).Pairwise Token.Precedes)
    (reads : ∀ after, Reads .operand (opening :: used ++ [closing] ++ after)
      (e.withSpan (opening.span.merge closing.span)) after) :
    Spans (opening :: used ++ [closing]) (e.withSpan (opening.span.merge closing.span)) := by
  have covers : Covers ([opening] ++ used ++ [closing]) (opening.span.merge closing.span) :=
    (Covers.singleton opening).merge (Covers.singleton closing) ordered
  rw [← e.span_withSpan (opening.span.merge closing.span)] at covers
  apply Spans.of_operand covers reads
  intro n mem
  rcases Expr.mem_subexpressions_withSpan mem with same | inner
  · exact .inl same
  · exact .inr ((h.placed n inner).widen [opening] [closing])

/-- A left side that can grow, with an operator that it can grow by and a right side, can grow by
    the operators of that level. -/
theorem Grows.binary {high : Nat} {before back : List Token} {token : Token} {op : Operator}
    {left right : Expr} (h : Grows high before left) (found : token.kind.operator? = some op)
    (le : op.level ≤ high)
    (reads : ∀ after, Stops (op.level + 1) after →
      Reads (.level (op.level + 1)) (back ++ after) right after) :
    Grows op.level (before ++ [token] ++ back)
      (.binary op left right (left.span.merge right.span)) := by
  intro l pos reaches after stops e rest more
  have stopsToken : Stops (high + 1) (token :: (back ++ after)) := by
    intro other same
    rw [found] at same
    cases same
    exact Nat.lt_succ_of_le le
  have grown := h l pos (Nat.le_trans reaches le) _ stopsToken e rest
    (.step found reaches (reads after stops) more)
  simpa using grown

theorem Spans.binary {before back : List Token} {token : Token} {op : Operator}
    {left right : Expr} (h : Spans before left) (h' : Spans back right)
    (ordered : (before ++ [token] ++ back).Pairwise Token.Precedes)
    (grows : Grows op.level (before ++ [token] ++ back)
      (.binary op left right (left.span.merge right.span))) :
    Spans (before ++ [token] ++ back) (.binary op left right (left.span.merge right.span)) := by
  refine .of_children (h.covers.merge h'.covers ordered) ?_ ?_
  · intro after stops
    exact grows.reads (Nat.le_refl 1) op.level_pos stops
  · intro n mem
    rcases List.mem_cons.1 mem with same | inner
    · exact .inl same
    rcases List.mem_append.1 inner with inLeft | inRight
    · have wide := (h.placed n inLeft).widen [] ([token] ++ back)
      exact .inr (by simpa using wide)
    · have wide := (h'.placed n inRight).widen (before ++ [token]) []
      exact .inr (by simpa using wide)

theorem Reads.spanned {task : Task} {tokens rest : List Token} {e : Expr}
    (h : Reads task tokens e rest) : task.Spanned tokens e rest := by
  induction h with
  | @name token rest kind =>
      intro _
      have reads : ∀ after, Reads .operand (token :: after) (.name token.text token.span) after :=
        fun after => .name kind
      exact ⟨[token], rfl, .leaf rfl rfl reads, reads⟩
  | @number token rest value kind reading =>
      intro _
      have reads : ∀ after, Reads .operand (token :: after) (.number value token.span) after :=
        fun after => .number kind reading
      exact ⟨[token], rfl, .leaf rfl rfl reads, reads⟩
  | @minus token tokens rest e kind _ ih =>
      intro ordered
      obtain ⟨used, rfl, spans, reads⟩ := ih (List.pairwise_cons.1 ordered).2
      have reads' : ∀ after, Reads .operand (token :: used ++ after)
          (.neg e (token.span.merge e.span)) after := fun after => .minus kind (reads after)
      rw [← List.cons_append] at ordered ⊢
      exact ⟨_, rfl, spans.neg (List.pairwise_append.1 ordered).1 reads', reads'⟩
  | @group opening closing tokens rest e opens closes _ ih =>
      intro ordered
      obtain ⟨used, rfl, spans, reads⟩ := ih (Nat.le_refl 1) (List.pairwise_cons.1 ordered).2
      have reads' : ∀ after, Reads .operand (opening :: used ++ [closing] ++ after)
          (e.withSpan (opening.span.merge closing.span)) after := by
        intro after
        have stops : Stops 1 (closing :: after) :=
          stops_of_no_operator (by rw [closes]; rfl) 1 after
        simpa using Reads.group opens closes (reads (closing :: after) stops)
      have whole : opening :: (used ++ closing :: rest) = opening :: used ++ [closing] ++ rest := by
        simp
      rw [whole] at ordered ⊢
      exact ⟨_, rfl, spans.group (List.pairwise_append.1 ordered).1 reads', reads'⟩
  | @level l tokens middle rest left e _ _ ihFirst ihMore =>
      intro pos ordered
      obtain ⟨first, rfl, spans, reads⟩ := ihFirst ordered
      -- an operand can be followed by any operator
      have grows : Grows (l + 4) first left :=
        fun _ _ _ after _ _ _ more => .level (reads after) more
      obtain ⟨used, rfl, spans', reads'⟩ := ihMore pos (l + 4) first (Nat.le_add_right l 4)
        (stops_of_three_lt (by omega) _) ordered spans grows
      exact ⟨first ++ used, by simp, spans', reads'⟩
  | @stop l left tokens stops =>
      intro pos high before le _ _ spans grows
      refine ⟨[], rfl, by simpa using spans, fun after stops' => ?_⟩
      simpa using grows.reads pos le stops'
  | @step l left right e token op tokens middle rest found reaches operand _ ihOperand ihMore =>
      intro pos high before le stops ordered spans grows
      have orderedRight := (List.pairwise_cons.1 (List.pairwise_append.1 ordered).2.1).2
      obtain ⟨back, rfl, spansRight, reads⟩ :=
        ihOperand (Nat.le_add_left 1 op.level) orderedRight
      have stopsRight : Stops (op.level + 1) middle := by
        obtain ⟨_, _, _, _, _, stops⟩ := operand.sound (Nat.le_add_left 1 op.level)
        exact stops
      have whole : before ++ token :: (back ++ middle) = before ++ [token] ++ back ++ middle := by
        simp
      rw [whole] at ordered
      have grows' := grows.binary found (Nat.le_of_lt_succ (stops op found)) reads
      have spans' := spans.binary spansRight (List.pairwise_append.1 ordered).1 grows'
      obtain ⟨used, rfl, spansAll, readsAll⟩ :=
        ihMore pos op.level _ reaches stopsRight ordered spans' grows'
      refine ⟨token :: (back ++ used), by simp, by simpa using spansAll, ?_⟩
      intro after stops
      simpa using readsAll after stops

/-! ### Ranges of a formula -/

/-- The text of a tree's tokens parses to the tree, moved to the front; and moved back again it is
    the tree itself, so that no range was cut off at the front. -/
theorem Stands.parse {n : Expr} {part : List Token} {text : String} {stop : Nat}
    (stands : Stands n part)
    (scans : Token.Scans n.span.start text.toList (part ++ [⟨.finish, .point stop, ""⟩])) :
    Expr.parse text = .ok (n.mapOffsets (· - n.span.start)) ∧
      (n.mapOffsets (· - n.span.start)).mapOffsets (· + n.span.start) = n := by
  have stops : Stops 1 [⟨.finish, .point stop, ""⟩] := stops_of_no_operator rfl 1 []
  have reads := stands.reads _ stops
  generalize n.span.start = start at scans ⊢
  have scansFront := @Token.Scans.mapOffsets _ _ _ (· - start) scans (by omega)
  have readsFront := @Reads.mapOffsets (· - start) (by omega) _ _ _ _ reads
  rw [Nat.sub_self] at scansFront
  constructor
  · apply parse_of_reads (Token.scans_iff.1 scansFront) readsFront
    intro token mem
    cases mem
    rfl
  · have scansBack := @Token.Scans.mapOffsets _ _ _ (· + start) scansFront (by omega)
    have readsBack := @Reads.mapOffsets (· + start) (by omega) _ _ _ _ readsFront
    rw [Nat.zero_add] at scansBack
    rw [← scans.unique scansBack] at readsBack
    exact (reads.unique readsBack).1.symm

/-- Every subexpression of a parsed formula stands for some of the formula's tokens. -/
theorem exists_stands_of_parse {source : String} {e n : Expr}
    (parsed : Expr.parse source = .ok e) (node : n ∈ e.subexpressions) :
    ∃ front part back, Token.lex source = .ok (front ++ part ++ back) ∧ Stands n part ∧
      ∀ token ∈ part, token.kind ≠ .finish := by
  obtain ⟨tokens, rest, lexed, reads, -⟩ := parse_eq_ok_iff.1 parsed
  obtain ⟨used, rfl, spans, -⟩ :=
    reads.spanned (Nat.le_refl 1) (Token.scans_iff.2 lexed).pairwise_precedes
  obtain ⟨used', shape, same, derived, -⟩ := reads.sound (Nat.le_refl 1)
  obtain rfl := List.append_cancel_right same
  obtain ⟨front, part, back, rfl, stands⟩ := spans.placed n node
  rw [List.append_assoc] at lexed
  refine ⟨front, part, back ++ rest, lexed, stands, fun token mem => derived.kind_ne_finish _ ?_⟩
  exact List.mem_append_left _ (List.mem_append_right _ mem)

/-- The range that some tokens cover cuts out a text that is lexed to them. -/
theorem Token.Scans.slice {source : String} {front part back : List Token} {span : Span}
    (h : Token.Scans 0 source.toList (front ++ part ++ back)) (covers : Covers part span)
    (kinds : ∀ token ∈ part, token.kind ≠ .finish) :
    ∃ text, span.slice? source = some text ∧
      Token.Scans span.start text.toList (part ++ [⟨.finish, .point span.stop, ""⟩]) := by
  obtain ⟨first, last, isFirst, isLast, rfl⟩ := covers
  obtain ⟨before, text, after, whole, start, stop, alone⟩ :=
    h.part isFirst isLast (kinds last (List.mem_of_getLast? isLast))
  rw [← @String.toList_ofList text] at whole stop alone
  refine ⟨String.ofList text, Span.slice?_eq_some_iff.2 ⟨before, after, whole, ?_, stop.symm⟩,
    alone⟩
  rw [start, Nat.zero_add]

/-- The range of a subexpression cuts out a text that is lexed to its tokens. -/
theorem exists_slice_of_parse {source : String} {e n : Expr}
    (parsed : Expr.parse source = .ok e) (node : n ∈ e.subexpressions) :
    ∃ part text, Stands n part ∧ n.span.slice? source = some text ∧
      Token.Scans n.span.start text.toList (part ++ [⟨.finish, .point n.span.stop, ""⟩]) := by
  obtain ⟨front, part, back, lexed, stands, kinds⟩ := exists_stands_of_parse parsed node
  obtain ⟨text, slice, scans⟩ := (Token.scans_iff.2 lexed).slice stands.covers kinds
  exact ⟨part, text, stands, slice, scans⟩

/-- Whatever formula is parsed, the range of each subexpression lies in it on character boundaries,
    and the text in the range parses to just that subexpression, moved to the front. -/
theorem parse_slice_of_mem_subexpressions {source : String} {e n : Expr}
    (parsed : Expr.parse source = .ok e) (node : n ∈ e.subexpressions) :
    ∃ text, n.span.slice? source = some text ∧
      Expr.parse text = .ok (n.mapOffsets (· - n.span.start)) ∧
      (n.mapOffsets (· - n.span.start)).mapOffsets (· + n.span.start) = n := by
  obtain ⟨part, text, stands, slice, scans⟩ := exists_slice_of_parse parsed node
  exact ⟨text, slice, stands.parse scans⟩

/-- A parenthesised name in a quotient, behind a blank. -/
theorem parse_slice_of_mem_subexpressions_quotient :
    ∃ e, Expr.parse " (m) / s" = .ok e ∧ .name "m" ⟨1, 4⟩ ∈ e.subexpressions ∧
      Span.slice? ⟨1, 4⟩ " (m) / s" = some "(m)" ∧
      Expr.parse "(m)" = .ok (.name "m" ⟨0, 3⟩) := by
  have lexed : Token.lex " (m) / s" =
      .ok [⟨.leftParen, ⟨1, 2⟩, "("⟩, ⟨.name, ⟨2, 3⟩, "m"⟩, ⟨.rightParen, ⟨3, 4⟩, ")"⟩,
        ⟨.slash, ⟨5, 6⟩, "/"⟩, ⟨.name, ⟨7, 8⟩, "s"⟩, ⟨.finish, .point 8, ""⟩] := by
    decide +kernel
  have denominator : Reads (.level 3) [⟨.name, ⟨7, 8⟩, "s"⟩, ⟨.finish, .point 8, ""⟩]
      (.name "s" ⟨7, 8⟩) [⟨.finish, .point 8, ""⟩] :=
    .level (.name rfl) (.stop (stops_of_no_operator rfl 3 []))
  have inner (rest : List Token) : Reads (.level 1)
      (⟨.name, ⟨2, 3⟩, "m"⟩ :: ⟨.rightParen, ⟨3, 4⟩, ")"⟩ :: rest) (.name "m" ⟨2, 3⟩)
      (⟨.rightParen, ⟨3, 4⟩, ")"⟩ :: rest) :=
    .level (.name rfl) (.stop (stops_of_no_operator rfl 1 rest))
  have parsed : Expr.parse " (m) / s" =
      .ok (.binary .div (.name "m" ⟨1, 4⟩) (.name "s" ⟨7, 8⟩) ⟨1, 8⟩) := by
    apply parse_of_reads lexed
    · apply Reads.level (.group rfl rfl (inner _))
      exact .step rfl (by decide) denominator (.stop (stops_of_no_operator rfl 1 []))
    · simp
  have node : Expr.name "m" ⟨1, 4⟩ ∈
      (Expr.binary .div (.name "m" ⟨1, 4⟩) (.name "s" ⟨7, 8⟩) ⟨1, 8⟩).subexpressions := by
    simp [Expr.subexpressions]
  obtain ⟨text, slice, alone, -⟩ := parse_slice_of_mem_subexpressions parsed node
  have part : Span.slice? ⟨1, 4⟩ " (m) / s" = some "(m)" := by decide +kernel
  obtain rfl : "(m)" = text := Option.some.inj (part.symm.trans slice)
  exact ⟨_, parsed, node, part, alone⟩

end Formula

end Metrology
