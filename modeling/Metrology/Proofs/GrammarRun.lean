/-
Module: Metrology.Proofs.GrammarRun
Layer: Proofs
Purpose: Successful runs of the formula readers as one relation. The three readers call each other
  and hand back proofs about what they leave; `Reads` forgets those proofs and has one constructor
  for each way a call can succeed, so that facts about readings are plain inductions. `reads_iff`
  ties it to the readers that run, and with it a reading is determined by its tokens.
Imports: Metrology.Formula.Grammar, Metrology.Proofs.Outcome
Main exports: Stops, Task, Task.run, Reads, reads_iff, Reads.unique, ofTokens_eq_ok_iff,
  parse_of_reads, parse_eq_ok_iff, parse_of_lex_name, parse_of_lex_operation
-/
import Metrology.Formula.Grammar
import Metrology.Proofs.Outcome

namespace Metrology.Formula

/-- No operator of the level or above stands at the front. -/
def Stops (level : Nat) : List Token → Prop
  | [] => True
  | token :: _ => ∀ op, token.kind.operator? = some op → op.level < level

theorem Operator.level_pos (op : Operator) : 1 ≤ op.level := by cases op <;> decide

theorem Operator.level_le (op : Operator) : op.level ≤ 3 := by cases op <;> decide

theorem Token.kind_ne_finish_of_operator {token : Token} {op : Operator}
    (found : token.kind.operator? = some op) : token.kind ≠ .finish := by
  intro finish
  rw [finish] at found
  cases found

/-- No operator binds tighter than powers. -/
theorem stops_of_three_lt {level : Nat} (h : 3 < level) (tokens : List Token) :
    Stops level tokens := by
  cases tokens with
  | nil => trivial
  | cons token rest =>
      intro op _
      exact Nat.lt_of_le_of_lt op.level_le h

theorem Stops.mono {low high : Nat} {tokens : List Token} (h : Stops low tokens)
    (le : low ≤ high) : Stops high tokens := by
  cases tokens with
  | nil => trivial
  | cons token rest =>
      intro op found
      exact Nat.lt_of_lt_of_le (h op found) le

/-- A token that is no operator ends every chain. -/
theorem stops_of_no_operator {token : Token} (h : token.kind.operator? = none) (level : Nat)
    (rest : List Token) : Stops level (token :: rest) := by
  intro op found
  rw [h] at found
  cases found

/-- A chain either ends here or goes on with an operator of its level or above. -/
theorem stops_or_operator (level : Nat) (tokens : List Token) :
    Stops level tokens ∨ ∃ token rest op, tokens = token :: rest ∧
      token.kind.operator? = some op ∧ level ≤ op.level := by
  cases tokens with
  | nil => exact .inl trivial
  | cons token rest =>
      cases found : token.kind.operator? with
      | none => exact .inl (stops_of_no_operator found level rest)
      | some op =>
          by_cases reaches : level ≤ op.level
          · exact .inr ⟨token, rest, op, rfl, found, reaches⟩
          · refine .inl fun other same => ?_
            rw [found] at same
            cases same
            exact Nat.lt_of_not_le reaches

/-- What a reader is asked for: everything down to a level, one operand, or the rest of a chain
    whose left part has been read. -/
inductive Task where
  | level (level : Nat)
  | operand
  | chain (level : Nat) (left : Expr)

/-- The reader of a task, without the proof that it has used some of its input. -/
def Task.run : Task → List Token → Except Error (Expr × List Token)
  | level l, tokens => (readLevel l tokens).map Subtype.val
  | operand, tokens => (readOperand tokens).map Subtype.val
  | chain l left, tokens => (readChain l left tokens).map Subtype.val

/-- `Reads task tokens e rest`: the reader of the task turns the tokens into `e` and leaves
    `rest`. -/
inductive Reads : Task → List Token → Expr → List Token → Prop where
  | name {token : Token} {rest : List Token} (kind : token.kind = .name) :
      Reads .operand (token :: rest) (.name token.text token.span) rest
  | number {token : Token} {rest : List Token} {value : Literal} (kind : token.kind = .number)
      (reading : Literal.read token.text = .ok value) :
      Reads .operand (token :: rest) (.number value token.span) rest
  | minus {token : Token} {tokens rest : List Token} {e : Expr} (kind : token.kind = .minus)
      (inner : Reads .operand tokens e rest) :
      Reads .operand (token :: tokens) (.neg e (token.span.merge e.span)) rest
  | group {opening closing : Token} {tokens rest : List Token} {e : Expr}
      (opens : opening.kind = .leftParen) (closes : closing.kind = .rightParen)
      (inner : Reads (.level 1) tokens e (closing :: rest)) :
      Reads .operand (opening :: tokens) (e.withSpan (opening.span.merge closing.span)) rest
  | level {level : Nat} {tokens middle rest : List Token} {left e : Expr}
      (first : Reads .operand tokens left middle) (more : Reads (.chain level left) middle e rest) :
      Reads (.level level) tokens e rest
  | stop {level : Nat} {left : Expr} {tokens : List Token} (stops : Stops level tokens) :
      Reads (.chain level left) tokens left tokens
  | step {level : Nat} {left right e : Expr} {token : Token} {op : Operator}
      {tokens middle rest : List Token} (found : token.kind.operator? = some op)
      (reaches : level ≤ op.level) (operand : Reads (.level (op.level + 1)) tokens right middle)
      (more : Reads (.chain level (.binary op left right (left.span.merge right.span))) middle e
        rest) :
      Reads (.chain level left) (token :: tokens) e rest

/-! ### One call of each reader -/

/-- What the operand reader makes of the tokens after the inside of a group. -/
def closeGroup (opening : Token) (inner : Expr) : List Token → Except Error (Expr × List Token)
  | [] => .error (unexpected .closing [])
  | closing :: rest =>
      if closing.kind = .rightParen then
        .ok (inner.withSpan (opening.span.merge closing.span), rest)
      else .error (unexpected .closing (closing :: rest))

namespace Task

theorem run_operand_nil : run operand [] = .error (unexpected .operand []) := by
  simp only [run]
  rw [readOperand]
  rfl

theorem run_operand_cons (token : Token) (rest : List Token) :
    run operand (token :: rest) =
      match token.kind with
      | .minus => (run operand rest).map fun r => (.neg r.1 (token.span.merge r.1.span), r.2)
      | .name => .ok (.name token.text token.span, rest)
      | .number =>
          match Literal.read token.text with
          | .error defect => .error (.malformedLiteral token.text defect token.span)
          | .ok value => .ok (.number value token.span, rest)
      | .leftParen => (run (level 1) rest).bind fun r => closeGroup token r.1 r.2
      | _ => .error (unexpected .operand (token :: rest)) := by
  simp only [run]
  rw [readOperand]
  cases token.kind with
  | minus =>
      cases readOperand rest with
      | error e => rfl
      | ok r => rfl
  | number => cases Literal.read token.text <;> rfl
  | leftParen =>
      cases readLevel 1 rest with
      | error e => rfl
      | ok r =>
          obtain ⟨⟨inner, left⟩, used⟩ := r
          cases left with
          | nil => rfl
          | cons closing after =>
              simp only [Except.map, Except.bind, closeGroup]
              by_cases closes : closing.kind = .rightParen
              · simp only [closes, if_true]
              · simp only [closes, if_false]
  | _ => rfl

theorem run_level (l : Nat) (tokens : List Token) :
    run (level l) tokens = (run operand tokens).bind fun r => run (chain l r.1) r.2 := by
  simp only [run]
  rw [readLevel]
  cases readOperand tokens with
  | error e => rfl
  | ok r =>
      obtain ⟨⟨left, rest⟩, used⟩ := r
      simp only [Except.map, Except.bind]
      cases readChain l left rest <;> rfl

theorem run_chain_of_stops {l : Nat} {left : Expr} {tokens : List Token} (h : Stops l tokens) :
    run (chain l left) tokens = .ok (left, tokens) := by
  simp only [run]
  cases tokens with
  | nil => rw [readChain]; rfl
  | cons token rest =>
      rw [readChain]
      cases found : token.kind.operator? with
      | none => rfl
      | some op => simp only [h op found, if_true]; rfl

theorem run_chain_of_operator {l : Nat} {left : Expr} {token : Token} {rest : List Token}
    {op : Operator} (found : token.kind.operator? = some op) (reaches : l ≤ op.level) :
    run (chain l left) (token :: rest) = (run (level (op.level + 1)) rest).bind fun r =>
      run (chain l (.binary op left r.1 (left.span.merge r.1.span))) r.2 := by
  simp only [run]
  rw [readChain]
  simp only [found, Nat.not_lt.2 reaches, if_false]
  cases readLevel (op.level + 1) rest with
  | error e => rfl
  | ok r =>
      obtain ⟨⟨right, after⟩, used⟩ := r
      simp only [Except.map, Except.bind]
      cases readChain l (.binary op left right (left.span.merge right.span)) after <;> rfl

theorem length_of_run_level {l : Nat} {tokens rest : List Token} {e : Expr}
    (h : run (level l) tokens = .ok (e, rest)) : rest.length < tokens.length :=
  property_of_map_val (p := fun r : Expr × List Token => r.2.length < tokens.length) h

theorem length_of_run_operand {tokens rest : List Token} {e : Expr}
    (h : run operand tokens = .ok (e, rest)) : rest.length < tokens.length :=
  property_of_map_val (p := fun r : Expr × List Token => r.2.length < tokens.length) h

end Task

/-! ### The relation and the readers -/

/-- Every reading is what its reader answers. -/
theorem Reads.run_eq {task : Task} {tokens rest : List Token} {e : Expr}
    (h : Reads task tokens e rest) : task.run tokens = .ok (e, rest) := by
  induction h with
  | name kind => simp only [Task.run_operand_cons, kind]
  | number kind reading => simp only [Task.run_operand_cons, kind, reading]
  | minus kind _ ih => simp only [Task.run_operand_cons, kind, ih, Except.map]
  | group opens closes _ ih =>
      simp only [Task.run_operand_cons, opens, ih, Except.bind, closeGroup, closes, if_true]
  | level _ _ ihFirst ihMore => simp only [Task.run_level, ihFirst, ihMore, Except.bind]
  | stop stops => exact Task.run_chain_of_stops stops
  | step found reaches _ _ ihOperand ihMore =>
      simp only [Task.run_chain_of_operator found reaches, ihOperand, ihMore, Except.bind]

mutual

/-- A level reader that succeeds has a reading. -/
theorem reads_of_run_level {l : Nat} {tokens rest : List Token} {e : Expr}
    (h : Task.run (.level l) tokens = .ok (e, rest)) : Reads (.level l) tokens e rest := by
  rw [Task.run_level, bind_eq_ok_iff] at h
  obtain ⟨⟨left, middle⟩, first, more⟩ := h
  have used : middle.length < tokens.length := Task.length_of_run_operand first
  exact .level (reads_of_run_operand first) (reads_of_run_chain more)
termination_by (tokens.length, 1)

/-- An operand reader that succeeds has a reading. -/
theorem reads_of_run_operand {tokens rest : List Token} {e : Expr}
    (h : Task.run .operand tokens = .ok (e, rest)) : Reads .operand tokens e rest := by
  cases tokens with
  | nil => rw [Task.run_operand_nil] at h; cases h
  | cons token tokens =>
      rw [Task.run_operand_cons] at h
      split at h
      · next kind =>
          obtain ⟨⟨inner, left⟩, run, same⟩ := map_eq_ok_iff.1 h
          cases same
          exact .minus kind (reads_of_run_operand run)
      · next kind => cases h; exact .name kind
      · next kind =>
          split at h
          · cases h
          · next reading => cases h; exact .number kind reading
      · next kind =>
          obtain ⟨⟨inner, left⟩, run, close⟩ := bind_eq_ok_iff.1 h
          cases left with
          | nil => cases close
          | cons closing after =>
              simp only [closeGroup] at close
              split at close
              · next closes => cases close; exact .group kind closes (reads_of_run_level run)
              · cases close
      · cases h
termination_by (tokens.length, 0)

/-- A chain reader that succeeds has a reading. -/
theorem reads_of_run_chain {l : Nat} {left e : Expr} {tokens rest : List Token}
    (h : Task.run (.chain l left) tokens = .ok (e, rest)) :
    Reads (.chain l left) tokens e rest := by
  rcases stops_or_operator l tokens with stops | ⟨token, after, op, shape, found, reaches⟩
  · rw [Task.run_chain_of_stops stops] at h
    cases h
    exact .stop stops
  · rw [shape, Task.run_chain_of_operator found reaches, bind_eq_ok_iff] at h
    obtain ⟨⟨right, middle⟩, operand, more⟩ := h
    have shorter : after.length < tokens.length := by simp [shape]
    have used : middle.length < after.length := Task.length_of_run_level operand
    rw [shape]
    exact .step found reaches (reads_of_run_level operand) (reads_of_run_chain more)
termination_by (tokens.length, 0)

end

theorem reads_iff {task : Task} {tokens rest : List Token} {e : Expr} :
    Reads task tokens e rest ↔ task.run tokens = .ok (e, rest) := by
  constructor
  · exact Reads.run_eq
  · intro h
    cases task with
    | level l => exact reads_of_run_level h
    | operand => exact reads_of_run_operand h
    | chain l left => exact reads_of_run_chain h

/-- A task has at most one reading. -/
theorem Reads.unique {task : Task} {tokens rest rest' : List Token} {e e' : Expr}
    (h : Reads task tokens e rest) (h' : Reads task tokens e' rest') : e = e' ∧ rest = rest' := by
  have same : Except.ok (ε := Error) (e, rest) = .ok (e', rest') := h.run_eq.symm.trans h'.run_eq
  cases same
  exact ⟨rfl, rfl⟩

/-- A name raised to a number is read at every level. -/
theorem Reads.power {level : Nat} {base caret exponent stop : Token} {rest : List Token}
    {value : Literal} (le : level ≤ 3) (name : base.kind = .name) (joins : caret.kind = .caret)
    (number : exponent.kind = .number) (reading : Literal.read exponent.text = .ok value)
    (ends : stop.kind.operator? = none) :
    Reads (.level level) (base :: caret :: exponent :: stop :: rest)
      (.binary .pow (.name base.text base.span) (.number value exponent.span)
        (base.span.merge exponent.span)) (stop :: rest) := by
  have found : caret.kind.operator? = some .pow := by
    rw [joins]
    rfl
  have operand : Reads (.level 4) (exponent :: stop :: rest) (.number value exponent.span)
      (stop :: rest) := .level (.number number reading) (.stop (stops_of_no_operator ends 4 rest))
  apply Reads.level (.name name)
  apply Reads.step found le operand
  exact .stop (stops_of_no_operator ends level rest)

/-! ### Whole token lists -/

/-- What is made of a reading once the loosest level has stopped. -/
def atEnd (e : Expr) : List Token → Except Error Expr
  | [] => .ok e
  | token :: rest =>
      if token.kind = .finish then .ok e else .error (unexpected .operator (token :: rest))

theorem ofTokens_eq (tokens : List Token) :
    Expr.ofTokens tokens = (Task.run (.level 1) tokens).bind fun r => atEnd r.1 r.2 := by
  simp only [Expr.ofTokens, Task.run]
  cases readLevel 1 tokens with
  | error e => rfl
  | ok r =>
      obtain ⟨⟨e, rest⟩, used⟩ := r
      cases rest <;> rfl

theorem atEnd_eq_ok_iff {e e' : Expr} {rest : List Token} :
    atEnd e rest = .ok e' ↔ e = e' ∧ ∀ token ∈ rest.head?, token.kind = .finish := by
  cases rest with
  | nil => simp [atEnd]
  | cons token after =>
      by_cases finish : token.kind = .finish <;> simp [atEnd, finish]

/-- A token list has a tree exactly when the loosest level reads it up to a closing token. -/
theorem ofTokens_eq_ok_iff {tokens : List Token} {e : Expr} :
    Expr.ofTokens tokens = .ok e ↔
      ∃ rest, Reads (.level 1) tokens e rest ∧ ∀ token ∈ rest.head?, token.kind = .finish := by
  simp only [ofTokens_eq, bind_eq_ok_iff, atEnd_eq_ok_iff, reads_iff]
  constructor
  · rintro ⟨⟨e', rest⟩, run, rfl, finish⟩
    exact ⟨rest, run, finish⟩
  · rintro ⟨rest, run, finish⟩
    exact ⟨(e, rest), run, rfl, finish⟩

variable {source : String}

theorem parse_eq_of_lex {tokens : List Token} (lexed : Token.lex source = .ok tokens) :
    Expr.parse source = Expr.ofTokens tokens := by
  rw [Expr.parse, lexed]

/-- A formula whose tokens are read up to a closing token has the tree that was read. -/
theorem parse_of_reads {tokens rest : List Token} {e : Expr}
    (lexed : Token.lex source = .ok tokens) (reads : Reads (.level 1) tokens e rest)
    (closed : ∀ token ∈ rest.head?, token.kind = .finish) : Expr.parse source = .ok e := by
  rw [parse_eq_of_lex lexed]
  exact ofTokens_eq_ok_iff.2 ⟨rest, reads, closed⟩

/-- A formula with a tree is read up to a closing token. -/
theorem parse_eq_ok_iff {e : Expr} :
    Expr.parse source = .ok e ↔ ∃ tokens rest, Token.lex source = .ok tokens ∧
      Reads (.level 1) tokens e rest ∧ ∀ token ∈ rest.head?, token.kind = .finish := by
  constructor
  · intro parsed
    cases lexed : Token.lex source with
    | error cause => simp [Expr.parse, lexed] at parsed
    | ok tokens =>
        rw [parse_eq_of_lex lexed] at parsed
        obtain ⟨rest, reads, closed⟩ := ofTokens_eq_ok_iff.1 parsed
        exact ⟨tokens, rest, rfl, reads, closed⟩
  · rintro ⟨tokens, rest, lexed, reads, closed⟩
    exact parse_of_reads lexed reads closed

/-- A lone name is a formula. -/
theorem parse_of_lex_name {name finish : Token} (lexed : Token.lex source = .ok [name, finish])
    (kind : name.kind = .name) (closed : finish.kind = .finish) :
    Expr.parse source = .ok (.name name.text name.span) := by
  have stops : Stops 1 [finish] := stops_of_no_operator (by rw [closed]; rfl) 1 []
  refine parse_of_reads lexed (.level (.name kind) (.stop stops)) ?_
  simp [closed]

/-- A name and a number are a formula with any operator between them. -/
theorem parse_of_lex_operation {name joint number finish : Token} {op : Operator} {value : Literal}
    (lexed : Token.lex source = .ok [name, joint, number, finish]) (kind : name.kind = .name)
    (joins : joint.kind.operator? = some op) (numeric : number.kind = .number)
    (reading : Literal.read number.text = .ok value) (closed : finish.kind = .finish) :
    Expr.parse source =
      .ok (.binary op (.name name.text name.span) (.number value number.span)
        (name.span.merge number.span)) := by
  have stops : ∀ level, Stops level [finish] := fun level =>
    stops_of_no_operator (by rw [closed]; rfl) level []
  have operand : Reads (.level (op.level + 1)) [number, finish] (.number value number.span)
      [finish] := .level (.number numeric reading) (.stop (stops _))
  apply parse_of_reads lexed
  · apply Reads.level (.name kind)
    exact .step joins op.level_pos operand (.stop (stops 1))
  · simp [closed]

end Metrology.Formula
