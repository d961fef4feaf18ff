/-
Module: Metrology.Proofs.ReadingSteps
Layer: Proofs
Purpose: Reading a formula one step at a time. The readers of formulas call each other and hand back
  what they leave; here their calls are the steps of a machine that stands at a place among the
  tokens and keeps the callers that wait. So one can say where the readers stand while they run, and
  where they stop when they fail. Every step keeps the answer that the readers will give, and either
  stays at its place with less left to do there, or uses one token that does not close the formula.
  So a call ends, after a number of steps linear in the tokens ahead, with the answer of its reader;
  wherever it stands there is a token ahead, and a complaint is about the place it is made at.
Imports: Mathlib.Logic.Function.Iterate, Metrology.Proofs.GrammarRun
Main exports: Reader, Machine, Machine.next, Machine.meaning_next, Machine.Moves,
  Machine.moves_next, Machine.Complains, Machine.exists_ended, Machine.ends_within_tokens
-/
import Mathlib.Logic.Function.Iterate
import Metrology.Proofs.GrammarRun

namespace Metrology.Formula

/-- The readers that can be called. A primary operand is one that no minus sign stands before. -/
inductive Reader where
  | level (level : Nat)
  | operand
  | primary

/-- What a reader makes of the tokens ahead. -/
def Reader.run : Reader → List Token → Except Error (Expr × List Token)
  | level l, tokens => Task.run (.level l) tokens
  | operand, tokens => Task.run .operand tokens
  | primary, [] => Task.run .operand []
  | primary, token :: rest =>
      if token.kind = .minus then .error (unexpected .operand (token :: rest))
      else Task.run .operand (token :: rest)

theorem Reader.length_lt_of_run {reader : Reader} {tokens rest : List Token} {e : Expr}
    (h : reader.run tokens = .ok (e, rest)) : rest.length < tokens.length := by
  cases reader with
  | level l => exact Task.length_of_run_level h
  | operand => exact Task.length_of_run_operand h
  | primary =>
      cases tokens with
      | nil => exact Task.length_of_run_operand h
      | cons token tokens =>
          simp only [run] at h
          split at h
          · cases h
          · exact Task.length_of_run_operand h

/-- A caller that waits for the operand being read: a sign for what it negates, a parenthesis for
    what it holds, a level for its first operand, or an operator for the one on its right. -/
inductive Frame where
  | sign (minus : Token)
  | group (opening : Token)
  | first (level : Nat)
  | right (level : Nat) (left : Expr) (op : Operator)

/-- What happens at a place: a reader is called, a chain looks for its next operator, an operand
    goes back to whoever waits for it, or everything has ended. -/
inductive Control where
  | call (reader : Reader)
  | chain (level : Nat) (left : Expr)
  | back (e : Expr)
  | ended (answer : Except Error Expr)

/-- How much there is to do at a place without using a token. -/
@[grind] def Control.load : Control → Nat
  | call (.level _) => 5
  | call .operand => 2
  | call .primary => 1
  | chain _ _ => 2
  | back _ => 1
  | ended _ => 0

/-- Whoever starts or goes on with a chain, once its operand is there, has more to do than a sign or
    a group. -/
@[grind] def Frame.load : Frame → Nat
  | sign _ => 1
  | group _ => 1
  | first _ => 2
  | right _ _ _ => 2

/-- The readers at one moment: what they do, the place of the next token, and who waits, the latest
    caller first. -/
structure Machine where
  control : Control
  place : Nat
  waiting : List Frame

namespace Machine

/-- A call that nobody waits for. -/
def start (reader : Reader) (place : Nat) : Machine := ⟨.call reader, place, []⟩

/-- A complaint ends all calls at once. -/
@[grind] def failed (cause : Error) (place : Nat) : Machine := ⟨.ended (.error cause), place, []⟩

/-! ### One step -/

/-- A minus sign is used and waits; before anything else a primary operand is called for. -/
def callOperand (ahead : List Token) (place : Nat) (waiting : List Frame) : Machine :=
  match ahead with
  | [] => ⟨.call .primary, place, waiting⟩
  | token :: _ =>
    if token.kind = .minus then ⟨.call .operand, place + 1, .sign token :: waiting⟩
    else ⟨.call .primary, place, waiting⟩

/-- A number is used before its text is read, so that a defect of it is found behind it. -/
def callPrimary (ahead : List Token) (place : Nat) (waiting : List Frame) : Machine :=
  match ahead with
  | [] => failed (unexpected .operand []) place
  | token :: rest =>
    match token.kind with
    | .name => ⟨.back (.name token.text token.span), place + 1, waiting⟩
    | .number =>
      match Literal.read token.text with
      | .error defect => failed (.malformedLiteral token.text defect token.span) (place + 1)
      | .ok value => ⟨.back (.number value token.span), place + 1, waiting⟩
    | .leftParen => ⟨.call (.level 1), place + 1, .group token :: waiting⟩
    | _ => failed (unexpected .operand (token :: rest)) place

/-- A chain uses an operator of its level or above and calls for the operand on its right. -/
def goOn (level : Nat) (left : Expr) (ahead : List Token) (place : Nat) (waiting : List Frame) :
    Machine :=
  match ahead with
  | [] => ⟨.back left, place, waiting⟩
  | token :: _ =>
    match token.kind.operator? with
    | none => ⟨.back left, place, waiting⟩
    | some op =>
      if op.level < level then ⟨.back left, place, waiting⟩
      else ⟨.call (.level (op.level + 1)), place + 1, .right level left op :: waiting⟩

/-- A group uses the parenthesis that closes it. -/
def close (opening : Token) (inner : Expr) (ahead : List Token) (place : Nat)
    (waiting : List Frame) : Machine :=
  match ahead with
  | [] => failed (unexpected .closing []) place
  | token :: rest =>
    if token.kind = .rightParen then
      ⟨.back (inner.withSpan (opening.span.merge token.span)), place + 1, waiting⟩
    else failed (unexpected .closing (token :: rest)) place

/-- One step. It looks at the first of the tokens ahead at most; among tokens that end with a
    closing one, no call comes to where it would have to make do without. -/
def next (tokens : List Token) : Machine → Machine
  | ⟨.call (.level l), place, waiting⟩ => ⟨.call .operand, place, .first l :: waiting⟩
  | ⟨.call .operand, place, waiting⟩ => callOperand (tokens.drop place) place waiting
  | ⟨.call .primary, place, waiting⟩ => callPrimary (tokens.drop place) place waiting
  | ⟨.chain l left, place, waiting⟩ => goOn l left (tokens.drop place) place waiting
  | ⟨.back e, place, []⟩ => ⟨.ended (.ok e), place, []⟩
  | ⟨.back e, place, .sign minus :: waiting⟩ =>
      ⟨.back (.neg e (minus.span.merge e.span)), place, waiting⟩
  | ⟨.back e, place, .group opening :: waiting⟩ =>
      close opening e (tokens.drop place) place waiting
  | ⟨.back e, place, .first l :: waiting⟩ => ⟨.chain l e, place, waiting⟩
  | ⟨.back e, place, .right l left op :: waiting⟩ =>
      ⟨.chain l (.binary op left e (left.span.merge e.span)), place, waiting⟩
  | ⟨.ended answer, place, waiting⟩ => ⟨.ended answer, place, waiting⟩

/-! ### What the readers will answer -/

/-- What those who wait make of an operand and the tokens behind it. -/
def resume : List Frame → Expr × List Token → Except Error (Expr × List Token)
  | [], r => .ok r
  | .sign minus :: waiting, (e, rest) => resume waiting (.neg e (minus.span.merge e.span), rest)
  | .group opening :: waiting, (e, rest) => (closeGroup opening e rest).bind (resume waiting)
  | .first l :: waiting, (e, rest) => (Task.run (.chain l e) rest).bind (resume waiting)
  | .right l left op :: waiting, (e, rest) =>
      (Task.run (.chain l (.binary op left e (left.span.merge e.span))) rest).bind (resume waiting)

/-- The answer that the readers give from here on. -/
def meaning (tokens : List Token) : Machine → Except Error (Expr × List Token)
  | ⟨.call reader, place, waiting⟩ => (reader.run (tokens.drop place)).bind (resume waiting)
  | ⟨.chain l left, place, waiting⟩ =>
      (Task.run (.chain l left) (tokens.drop place)).bind (resume waiting)
  | ⟨.back e, place, waiting⟩ => resume waiting (e, tokens.drop place)
  | ⟨.ended answer, place, _⟩ => answer.map fun e => (e, tokens.drop place)

theorem drop_succ {tokens rest : List Token} {token : Token} {place : Nat}
    (ahead : tokens.drop place = token :: rest) : tokens.drop (place + 1) = rest := by
  rw [← List.tail_drop, ahead, List.tail_cons]

theorem goOn_of_stops {level place : Nat} {left : Expr} {ahead : List Token}
    {waiting : List Frame} (stops : Stops level ahead) :
    goOn level left ahead place waiting = ⟨.back left, place, waiting⟩ := by
  cases ahead with
  | nil => rfl
  | cons token rest =>
      cases found : token.kind.operator? with
      | none => simp only [goOn, found]
      | some op => simp only [goOn, found, stops op found, if_true]

theorem goOn_of_operator {level place : Nat} {left : Expr} {token : Token} {op : Operator}
    {rest : List Token} {waiting : List Frame} (found : token.kind.operator? = some op)
    (reaches : level ≤ op.level) :
    goOn level left (token :: rest) place waiting =
      ⟨.call (.level (op.level + 1)), place + 1, .right level left op :: waiting⟩ := by
  simp only [goOn, found, Nat.not_lt.2 reaches, if_false]

section

variable {tokens : List Token} (place : Nat) (waiting : List Frame)

theorem meaning_callOperand :
    (callOperand (tokens.drop place) place waiting).meaning tokens =
      (Task.run .operand (tokens.drop place)).bind (resume waiting) := by
  cases ahead : tokens.drop place with
  | nil => simp only [callOperand, meaning, ahead, Reader.run]
  | cons token rest =>
      by_cases minus : token.kind = .minus
      · simp only [callOperand, minus, if_true, meaning, drop_succ ahead, Reader.run,
          Task.run_operand_cons]
        cases Task.run .operand rest <;> rfl
      · simp only [callOperand, minus, if_false, meaning, ahead, Reader.run]

theorem meaning_callPrimary :
    (callPrimary (tokens.drop place) place waiting).meaning tokens =
      (Reader.primary.run (tokens.drop place)).bind (resume waiting) := by
  cases ahead : tokens.drop place with
  | nil =>
      simp only [callPrimary, Reader.run, Task.run_operand_nil]
      rfl
  | cons token rest =>
      have behind := drop_succ ahead
      simp only [Reader.run, Task.run_operand_cons, callPrimary]
      cases kind : token.kind with
      | name => simp [meaning, behind, Except.bind]
      | number =>
          cases Literal.read token.text <;> simp [failed, meaning, behind, Except.bind, Except.map]
      | leftParen =>
          simp only [meaning, behind, Reader.run, resume]
          cases Task.run (.level 1) rest <;> simp [Except.bind]
      | _ => rfl

theorem meaning_goOn (level : Nat) (left : Expr) :
    (goOn level left (tokens.drop place) place waiting).meaning tokens =
      (Task.run (.chain level left) (tokens.drop place)).bind (resume waiting) := by
  rcases stops_or_operator level (tokens.drop place) with
    stops | ⟨token, rest, op, ahead, found, reaches⟩
  · rw [goOn_of_stops stops, Task.run_chain_of_stops stops]
    rfl
  · rw [ahead, goOn_of_operator found reaches, Task.run_chain_of_operator found reaches]
    simp only [meaning, drop_succ ahead, Reader.run]
    cases Task.run (.level (op.level + 1)) rest <;> rfl

theorem meaning_close (opening : Token) (inner : Expr) :
    (close opening inner (tokens.drop place) place waiting).meaning tokens =
      (closeGroup opening inner (tokens.drop place)).bind (resume waiting) := by
  cases ahead : tokens.drop place with
  | nil => rfl
  | cons token rest =>
      by_cases closes : token.kind = .rightParen
      · simp only [close, closeGroup, closes, if_true, meaning, drop_succ ahead, Except.bind]
      · simp only [close, closeGroup, closes, if_false]
        rfl

end

/-- A step changes nothing about the answer. -/
theorem meaning_next (tokens : List Token) (m : Machine) :
    (m.next tokens).meaning tokens = m.meaning tokens := by
  obtain ⟨control, place, waiting⟩ := m
  cases control with
  | call reader =>
      cases reader with
      | level l =>
          simp only [next, meaning, Reader.run, Task.run_level]
          cases Task.run .operand (tokens.drop place) <;> rfl
      | operand => exact meaning_callOperand place waiting
      | primary => exact meaning_callPrimary place waiting
  | chain l left => exact meaning_goOn place waiting l left
  | back e =>
      cases waiting with
      | nil => rfl
      | cons frame waiting =>
          cases frame with
          | group opening => exact meaning_close place waiting opening e
          | _ => rfl
  | ended answer => rfl

/-! ### Where a step leads -/

/-- What all who wait have left to do without using a token. -/
@[grind] def waitingLoad : List Frame → Nat
  | [] => 0
  | frame :: waiting => frame.load + waitingLoad waiting

/-- What is left to do without using a token. -/
@[grind] def load (m : Machine) : Nat := m.control.load + waitingLoad m.waiting

/-- A step stays at its place with less to do there, or uses the token at its place, which does not
    close the formula, and may find up to five more things to do behind it. -/
inductive Moves (tokens : List Token) (m m' : Machine) : Prop where
  | stays (same : m'.place = m.place) (less : m'.load < m.load)
  | uses {token : Token} (here : tokens[m.place]? = some token) (inside : token.kind ≠ .finish)
      (onward : m'.place = m.place + 1) (bounded : m'.load < m.load + 6)

theorem getElem?_of_drop {tokens rest : List Token} {token : Token} {place : Nat}
    (ahead : tokens.drop place = token :: rest) : tokens[place]? = some token := by
  rw [← List.head?_drop, ahead, List.head?_cons]

section

variable {tokens : List Token} (place : Nat) (waiting : List Frame)

theorem moves_callOperand : Moves tokens ⟨.call .operand, place, waiting⟩
    (callOperand (tokens.drop place) place waiting) := by
  cases ahead : tokens.drop place with
  | nil => exact .stays rfl (by grind [callOperand])
  | cons token rest =>
      by_cases minus : token.kind = .minus
      · simp only [callOperand, minus, if_true]
        exact .uses (getElem?_of_drop ahead) (by simp [minus]) rfl (by grind)
      · simp only [callOperand, minus, if_false]
        exact .stays rfl (by grind)

theorem moves_callPrimary : Moves tokens ⟨.call .primary, place, waiting⟩
    (callPrimary (tokens.drop place) place waiting) := by
  cases ahead : tokens.drop place with
  | nil => exact .stays rfl (by grind [callPrimary])
  | cons token rest =>
      have here := getElem?_of_drop ahead
      simp only [callPrimary]
      cases kind : token.kind with
      | name => exact .uses here (by simp [kind]) rfl (by grind)
      | number =>
          cases Literal.read token.text with
          | error defect => exact .uses here (by simp [kind]) rfl (by grind)
          | ok value => exact .uses here (by simp [kind]) rfl (by grind)
      | leftParen => exact .uses here (by simp [kind]) rfl (by grind)
      | _ => exact .stays rfl (by grind)

theorem moves_goOn (level : Nat) (left : Expr) : Moves tokens ⟨.chain level left, place, waiting⟩
    (goOn level left (tokens.drop place) place waiting) := by
  rcases stops_or_operator level (tokens.drop place) with
    stops | ⟨token, rest, op, ahead, found, reaches⟩
  · rw [goOn_of_stops stops]
    exact .stays rfl (by grind)
  · have inside := Token.kind_ne_finish_of_operator found
    rw [ahead, goOn_of_operator found reaches]
    exact .uses (getElem?_of_drop ahead) inside rfl (by grind)

theorem moves_close (opening : Token) (inner : Expr) :
    Moves tokens ⟨.back inner, place, .group opening :: waiting⟩
      (close opening inner (tokens.drop place) place waiting) := by
  cases ahead : tokens.drop place with
  | nil => exact .stays rfl (by grind [close])
  | cons token rest =>
      by_cases closes : token.kind = .rightParen
      · simp only [close, closes, if_true]
        exact .uses (getElem?_of_drop ahead) (by simp [closes]) rfl (by grind)
      · simp only [close, closes, if_false]
        exact .stays rfl (by grind)

end

theorem next_of_ended {tokens : List Token} {m : Machine} {answer : Except Error Expr}
    (ended : m.control = .ended answer) : m.next tokens = m := by
  obtain ⟨control, place, waiting⟩ := m
  subst ended
  rfl

/-- Whoever has not ended moves. -/
theorem moves_next (tokens : List Token) (m : Machine) :
    (∃ answer, m.control = .ended answer) ∨ Moves tokens m (m.next tokens) := by
  obtain ⟨control, place, waiting⟩ := m
  cases control with
  | call reader =>
      right
      cases reader with
      | level l => exact .stays rfl (by grind [next])
      | operand => exact moves_callOperand place waiting
      | primary => exact moves_callPrimary place waiting
  | chain l left => exact .inr (moves_goOn place waiting l left)
  | back e =>
      right
      cases waiting with
      | nil => exact .stays rfl (by grind [next])
      | cons frame waiting =>
          cases frame with
          | group opening => exact moves_close place waiting opening e
          | _ => exact .stays rfl (by grind [next])
  | ended answer => exact .inl ⟨answer, rfl⟩

/-! ### Complaints -/

/-- What a complaint that is made at a place is about: the tokens ahead, or the number used last,
    whose text is no literal. -/
inductive Complains (tokens : List Token) : Nat → Error → Prop where
  | unexpected (expected : Expected) (place : Nat) :
      Complains tokens place (unexpected expected (tokens.drop place))
  | literal {place : Nat} {token : Token} {defect : LiteralError}
      (here : tokens[place]? = some token) (kind : token.kind = .number)
      (reading : Literal.read token.text = .error defect) :
      Complains tokens (place + 1) (.malformedLiteral token.text defect token.span)

/-- Whoever has ended with a complaint stands at the place that it is about. -/
def Justified (tokens : List Token) (m : Machine) : Prop :=
  ∀ cause, m.control = .ended (.error cause) → Complains tokens m.place cause

theorem Complains.justified {tokens : List Token} {place : Nat} {cause : Error}
    (h : Complains tokens place cause) : Justified tokens (failed cause place) := by
  intro other same
  cases same
  exact h

section

variable {tokens : List Token} (place : Nat) (waiting : List Frame)

theorem justified_callOperand (ahead : List Token) :
    Justified tokens (callOperand ahead place waiting) := by
  cases ahead with
  | nil => rintro _ ⟨⟩
  | cons token rest =>
      simp only [callOperand]
      split <;> rintro _ ⟨⟩

theorem justified_callPrimary :
    Justified tokens (callPrimary (tokens.drop place) place waiting) := by
  have complains : Complains tokens place (unexpected .operand (tokens.drop place)) :=
    .unexpected .operand place
  cases ahead : tokens.drop place with
  | nil =>
      rw [ahead] at complains
      exact complains.justified
  | cons token rest =>
      rw [ahead] at complains
      simp only [callPrimary]
      split
      · rintro _ ⟨⟩
      · next kind =>
          have here := getElem?_of_drop ahead
          split
          · next reading => exact (Complains.literal here kind reading).justified
          · rintro _ ⟨⟩
      · rintro _ ⟨⟩
      · exact complains.justified

theorem justified_goOn (level : Nat) (left : Expr) (ahead : List Token) :
    Justified tokens (goOn level left ahead place waiting) := by
  rcases stops_or_operator level ahead with stops | ⟨token, rest, op, rfl, found, reaches⟩
  · rw [goOn_of_stops stops]
    rintro _ ⟨⟩
  · rw [goOn_of_operator found reaches]
    rintro _ ⟨⟩

theorem justified_close (opening : Token) (inner : Expr) :
    Justified tokens (close opening inner (tokens.drop place) place waiting) := by
  have complains : Complains tokens place (unexpected .closing (tokens.drop place)) :=
    .unexpected .closing place
  cases ahead : tokens.drop place with
  | nil =>
      rw [ahead] at complains
      exact complains.justified
  | cons token rest =>
      rw [ahead] at complains
      simp only [close]
      split
      · rintro _ ⟨⟩
      · exact complains.justified

end

/-- A step complains about nothing but the place that it comes to. -/
theorem Justified.next {tokens : List Token} {m : Machine} (h : Justified tokens m) :
    Justified tokens (m.next tokens) := by
  obtain ⟨control, place, waiting⟩ := m
  cases control with
  | call reader =>
      cases reader with
      | level l => rintro _ ⟨⟩
      | operand => exact justified_callOperand place waiting _
      | primary => exact justified_callPrimary place waiting
  | chain l left => exact justified_goOn place waiting l left _
  | back e =>
      cases waiting with
      | nil => rintro _ ⟨⟩
      | cons frame waiting =>
          cases frame with
          | group opening => exact justified_close place waiting opening e
          | _ => rintro _ ⟨⟩
  | ended answer => exact h

/-! ### Runs -/

/-- The machine after a number of steps. -/
def after (tokens : List Token) (m : Machine) (steps : Nat) : Machine := (next tokens)^[steps] m

theorem after_succ (tokens : List Token) (m : Machine) (steps : Nat) :
    m.after tokens (steps + 1) = (m.after tokens steps).next tokens :=
  Function.iterate_succ_apply' _ _ _

/-- A run changes nothing about the answer. -/
theorem meaning_after (tokens : List Token) (m : Machine) (steps : Nat) :
    (m.after tokens steps).meaning tokens = m.meaning tokens := by
  induction steps with
  | zero => rfl
  | succ steps ih => rw [after_succ, meaning_next, ih]

theorem Justified.after {tokens : List Token} {m : Machine} (h : Justified tokens m)
    (steps : Nat) : Justified tokens (m.after tokens steps) := by
  induction steps with
  | zero => exact h
  | succ steps ih =>
      rw [after_succ]
      exact ih.next

/-- A bound on the steps still to be made: six for each token ahead, and what there is to do without
    using one. -/
def weight (tokens : List Token) (m : Machine) : Nat := 6 * (tokens.length - m.place) + m.load

theorem Moves.weight_lt {tokens : List Token} {m m' : Machine} (h : Moves tokens m m') :
    m'.weight tokens < m.weight tokens := by
  cases h with
  | stays same less =>
      rw [weight, weight, same]
      exact Nat.add_lt_add_left less _
  | uses here _ onward bounded =>
      obtain ⟨before, -⟩ := List.getElem?_eq_some_iff.1 here
      rw [weight, weight, onward]
      omega

/-- Every run ends, whatever the tokens. -/
theorem exists_ended (tokens : List Token) (m : Machine) :
    ∃ steps ≤ m.weight tokens, ∃ answer, (m.after tokens steps).control = .ended answer := by
  induction bound : m.weight tokens using Nat.strongRecOn generalizing m with
  | ind weight ih =>
      rcases moves_next tokens m with ended | moves
      · exact ⟨0, Nat.zero_le _, ended⟩
      · -- the step lowers the weight, and one more step is paid for by what it lowers it
        have less := moves.weight_lt
        obtain ⟨steps, le, ended⟩ := ih _ (bound ▸ less) (m.next tokens) rfl
        exact ⟨steps + 1, by omega, ended⟩

theorem meaning_of_ended {tokens : List Token} {m : Machine} {answer : Except Error Expr}
    (ended : m.control = .ended answer) :
    m.meaning tokens = answer.map fun e => (e, tokens.drop m.place) := by
  obtain ⟨control, place, waiting⟩ := m
  subst ended
  rfl

theorem meaning_start (tokens : List Token) (reader : Reader) (place : Nat) :
    (start reader place).meaning tokens = reader.run (tokens.drop place) := by
  simp only [start, meaning]
  cases reader.run (tokens.drop place) <;> rfl

section

variable {tokens : List Token} {last : Nat} {finish : Token} (stop : tokens[last]? = some finish)
  (closing : finish.kind = .finish)
include stop closing

/-- No move from a closing token or before it leads beyond it. -/
theorem Moves.place_le {m m' : Machine} (h : Moves tokens m m') (le : m.place ≤ last) :
    m.place ≤ m'.place ∧ m'.place ≤ last := by
  cases h with
  | stays same _ =>
      rw [same]
      exact ⟨Nat.le_refl _, le⟩
  | @uses token here inside onward _ =>
      have before : m.place ≠ last := by
        intro same
        rw [same, stop] at here
        cases here
        exact inside closing
      omega

theorem place_after_le {m : Machine} (le : m.place ≤ last) (steps : Nat) :
    m.place ≤ (m.after tokens steps).place ∧ (m.after tokens steps).place ≤ last := by
  induction steps with
  | zero => exact ⟨Nat.le_refl _, le⟩
  | succ steps ih =>
      rw [after_succ]
      rcases moves_next tokens (m.after tokens steps) with ⟨answer, ended⟩ | moves
      · rwa [next_of_ended ended]
      · obtain ⟨onward, within⟩ := moves.place_le stop closing ih.2
        exact ⟨Nat.le_trans ih.1 onward, within⟩

end

theorem weight_start_le (tokens : List Token) (reader : Reader) (place : Nat) :
    (start reader place).weight tokens ≤ 6 * (tokens.length - place) + 5 := by
  cases reader <;> grind [weight, start]

/-- Among tokens that end with a closing one, every call from the closing token or before it ends,
    after a number of steps linear in the tokens ahead, with the answer of its reader. A call that
    succeeds has used a token; one that fails complains about the place that it has come to. While
    it runs, and however it ends, the place goes neither back nor beyond the closing token, so that
    there is always a token ahead. -/
theorem ends_within_tokens {tokens body : List Token} {finish : Token} {place : Nat}
    (shape : tokens = body ++ [finish]) (closing : finish.kind = .finish)
    (le : place ≤ body.length) (reader : Reader) :
    (∃ steps ≤ 6 * (tokens.length - place) + 5, ∃ answer last waiting,
      (start reader place).after tokens steps = ⟨.ended answer, last, waiting⟩ ∧
      (reader.run (tokens.drop place) = answer.map fun e => (e, tokens.drop last)) ∧
      (∀ e, answer = .ok e → place < last) ∧
      ∀ cause, answer = .error cause → Complains tokens last cause) ∧
    ∀ steps, place ≤ ((start reader place).after tokens steps).place ∧
      ((start reader place).after tokens steps).place ≤ body.length ∧
      ∃ token rest,
        tokens.drop ((start reader place).after tokens steps).place = token :: rest := by
  have length : tokens.length = body.length + 1 := by
    rw [shape, List.length_append, List.length_singleton]
  have stop : tokens[body.length]? = some finish := by
    rw [shape, List.getElem?_concat_length]
  have stays := place_after_le stop closing (m := start reader place) le
  constructor
  · obtain ⟨steps, bound, answer, ended⟩ := exists_ended tokens (start reader place)
    have linear := Nat.le_trans bound (weight_start_le tokens reader place)
    have same : reader.run (tokens.drop place) = answer.map fun e =>
        (e, tokens.drop ((start reader place).after tokens steps).place) := by
      rw [← meaning_start, ← meaning_after tokens _ steps, meaning_of_ended ended]
    refine ⟨steps, linear, answer, _, _, by rw [← ended], same, ?_, ?_⟩
    · rintro e rfl
      have used := Reader.length_lt_of_run same
      rw [List.length_drop, List.length_drop] at used
      omega
    · rintro cause rfl
      have justified : Justified tokens (start reader place) := by rintro _ ⟨⟩
      exact justified.after steps cause ended
  · intro steps
    obtain ⟨onward, within⟩ := stays steps
    have ahead : tokens.drop ((start reader place).after tokens steps).place ≠ [] := by
      rw [ne_eq, List.drop_eq_nil_iff]
      omega
    exact ⟨onward, within, List.exists_cons_of_ne_nil ahead⟩

/-- A group that nothing closes is complained about at the closing token, which is not used. -/
theorem ends_within_tokens_unclosed :
    ∃ tokens, Token.lex "-(m" = .ok tokens ∧
      (∃ steps ≤ 29, ∃ last waiting, (start (.level 1) 0).after tokens steps =
        ⟨.ended (.error (.unexpectedEnd .closing (.point 3))), last, waiting⟩) ∧
      ∀ steps, ((start (.level 1) 0).after tokens steps).place ≤ 3 := by
  let body : List Token :=
    [⟨.minus, ⟨0, 1⟩, "-"⟩, ⟨.leftParen, ⟨1, 2⟩, "("⟩, ⟨.name, ⟨2, 3⟩, "m"⟩]
  let finish : Token := ⟨.finish, .point 3, ""⟩
  have lexed : Token.lex "-(m" = .ok (body ++ [finish]) := by decide +kernel
  obtain ⟨⟨steps, bound, answer, last, waiting, ended, same, -⟩, within⟩ :=
    @ends_within_tokens _ body finish 0 rfl rfl (Nat.zero_le 3) (.level 1)
  -- ten steps of the machine tell what the reader answers
  rw [← meaning_start, ← meaning_after _ _ 10] at same
  cases answer with
  | ok e => cases same
  | error cause =>
      cases same
      exact ⟨_, lexed, ⟨steps, bound, last, waiting, ended⟩, fun steps => (within steps).2.1⟩

end Machine

end Metrology.Formula
