/-
Module: Metrology.Proofs.BlamedToken
Layer: Proofs
Purpose: The token that a syntax error is about. A reader that fails has used some tokens and
  complains about the rest, of which it has seen the first one only; so it fails alike whatever
  stands behind that token. What it has used could have gone on: a name goes where an operand is
  missing, and a closing parenthesis behind it for each group that is still open.
Imports: Metrology.Proofs.GrammarFailure
Main exports: Task.Ends, Reads.exists_used, Blames, Completes, Blame, Fails.exists_blame,
  WholeBlame, exists_wholeBlame
-/
import Metrology.Proofs.GrammarFailure

namespace Metrology.Formula

/-! ### Used tokens -/

/-- What the reader of a task may leave. -/
def Task.Ends : Task → List Token → Prop
  | level l, after => Stops l after
  | operand, _ => True
  | chain l _, after => Stops l after

theorem Reads.ends {task : Task} {tokens rest : List Token} {e : Expr}
    (h : Reads task tokens e rest) : task.Ends rest := by
  induction h with
  | name _ => trivial
  | number _ _ => trivial
  | minus _ _ _ => trivial
  | group _ _ _ _ => trivial
  | level _ _ _ ihMore => exact ihMore
  | stop stops => exact stops
  | step _ _ _ _ _ ihMore => exact ihMore

/-- Only the first token decides whether a chain ends. -/
theorem Stops.of_head? {level : Nat} {tokens tokens' : List Token} (h : Stops level tokens)
    (same : tokens'.head? = tokens.head?) : Stops level tokens' := by
  cases tokens' with
  | nil => trivial
  | cons token rest =>
      obtain ⟨more, rfl⟩ := List.head?_eq_some_iff.1 same.symm
      exact h

theorem head?_append_congr {used rest rest' : List Token} (same : rest'.head? = rest.head?) :
    (used ++ rest').head? = (used ++ rest).head? := by
  rw [List.head?_append, List.head?_append, same]

/-- Tokens that end a chain do so before other tokens as well, unless there are none. -/
theorem Stops.append {low high : Nat} {used rest after : List Token} (h : Stops high (used ++ rest))
    (le : low ≤ high) (ends : Stops low after) : Stops high (used ++ after) := by
  cases used with
  | nil => exact ends.mono le
  | cons token used => exact h

/-- A reader reads the tokens that it uses alike before whatever it may leave. -/
theorem Reads.exists_used {task : Task} {tokens rest : List Token} {e : Expr}
    (h : Reads task tokens e rest) :
    ∃ used, tokens = used ++ rest ∧ (∀ token ∈ used, token.kind ≠ .finish) ∧
      ∀ after, task.Ends after → Reads task (used ++ after) e after := by
  induction h with
  | @name token rest kind =>
      refine ⟨[token], rfl, ?_, fun after _ => .name kind⟩
      exact List.forall_mem_singleton.2 (kind ▸ nofun)
  | @number token rest value kind reading =>
      refine ⟨[token], rfl, ?_, fun after _ => .number kind reading⟩
      exact List.forall_mem_singleton.2 (kind ▸ nofun)
  | @minus token tokens rest e kind _ ih =>
      obtain ⟨used, rfl, others, reads⟩ := ih
      refine ⟨token :: used, rfl, ?_, fun after ends => .minus kind (reads after ends)⟩
      exact List.forall_mem_cons.2 ⟨kind ▸ nofun, others⟩
  | @group opening closing tokens rest e opens closes _ ih =>
      obtain ⟨used, rfl, others, reads⟩ := ih
      refine ⟨opening :: used ++ [closing], by simp, ?_, fun after _ => ?_⟩
      · exact List.forall_mem_cons.2 ⟨opens ▸ nofun,
          List.forall_mem_append.2 ⟨others, List.forall_mem_singleton.2 (closes ▸ nofun)⟩⟩
      · have stops : Stops 1 (closing :: after) :=
          stops_of_no_operator (by rw [closes]; rfl) 1 after
        simpa using Reads.group opens closes (reads (closing :: after) stops)
  | level _ _ ihFirst ihMore =>
      obtain ⟨front, rfl, othersFront, readsFront⟩ := ihFirst
      obtain ⟨back, rfl, othersBack, readsBack⟩ := ihMore
      refine ⟨front ++ back, by simp, List.forall_mem_append.2 ⟨othersFront, othersBack⟩, ?_⟩
      intro after ends
      rw [List.append_assoc]
      exact .level (readsFront _ trivial) (readsBack after ends)
  | stop stops => exact ⟨[], rfl, nofun, fun after ends => .stop ends⟩
  | @step l left right e token op tokens middle rest found reaches operand _ ihOperand ihMore =>
      have stops : Stops (op.level + 1) middle := operand.ends
      obtain ⟨front, rfl, othersFront, readsFront⟩ := ihOperand
      obtain ⟨back, rfl, othersBack, readsBack⟩ := ihMore
      refine ⟨token :: (front ++ back), by simp, ?_, ?_⟩
      · exact List.forall_mem_cons.2 ⟨Token.kind_ne_finish_of_operator found,
          List.forall_mem_append.2 ⟨othersFront, othersBack⟩⟩
      · intro after ends
        have stops' : Stops (op.level + 1) (back ++ after) :=
          stops.append (Nat.le_succ_of_le reaches) ends
        rw [List.cons_append, List.append_assoc]
        exact .step found reaches (readsFront _ stops') (readsBack after ends)

/-! ### Complaints -/

/-- What an error of the readers is about: the tokens that are left, that is the first of them, or
    that there are none. -/
inductive Blames : Error → List Token → Prop where
  | unexpected (expected : Expected) (rest : List Token) : Blames (unexpected expected rest) rest
  | literal {token : Token} {rest : List Token} {defect : LiteralError}
      (kind : token.kind = .number) (reading : Literal.read token.text = .error defect) :
      Blames (.malformedLiteral token.text defect token.span) (token :: rest)

theorem unexpected_congr (expected : Expected) {rest rest' : List Token}
    (same : rest'.head? = rest.head?) : unexpected expected rest' = unexpected expected rest := by
  cases rest' with
  | nil =>
      obtain rfl := List.head?_eq_none_iff.1 same.symm
      rfl
  | cons token more =>
      obtain ⟨more', rfl⟩ := List.head?_eq_some_iff.1 same.symm
      rfl

/-- Any tokens of these kinds go on with what has been used, up to what the reader may leave. -/
def Completes (task : Task) (used : List Token) (kinds : List TokenKind) : Prop :=
  ∀ completion : List Token, completion.map Token.kind = kinds → ∀ after, task.Ends after →
    ∃ e, Reads task (used ++ (completion ++ after)) e after

/-- A name and closing parentheses are all that it takes to go on. -/
def IsCompletion (kinds : List TokenKind) : Prop :=
  ∀ kind ∈ kinds, kind = .name ∨ kind = .rightParen

def Task.IsChain : Task → Prop
  | chain _ _ => True
  | _ => False

/-- How a reader comes to fail: with what it has used, and what is left. -/
structure Blame (task : Task) (cause : Error) (used rest : List Token) : Prop where
  blames : Blames cause rest
  /-- The end is not among what is used. -/
  others : ∀ token ∈ used, token.kind ≠ .finish
  /-- A chain that fails has used the operator that it goes on with. -/
  begun : task.IsChain → used ≠ []
  /-- What is left matters by its first token only. -/
  fails : ∀ rest', rest'.head? = rest.head? → Fails task (used ++ rest') cause
  /-- What is used can go on. -/
  completes : ∃ kinds, IsCompletion kinds ∧ Completes task used kinds

theorem isCompletion_name : IsCompletion [.name] :=
  List.forall_mem_singleton.2 (.inl rfl)

theorem completes_operand : Completes .operand [] [.name] := by
  intro completion kinds after _
  obtain ⟨token, rfl, kind⟩ := List.map_eq_singleton_iff.1 kinds
  exact ⟨_, .name kind⟩

/-- A closing parenthesis completes the group around what completes its inside. -/
theorem Completes.group {opening : Token} {used : List Token} {kinds : List TokenKind}
    (h : Completes (.level 1) used kinds) (opens : opening.kind = .leftParen) :
    Completes .operand (opening :: used) (kinds ++ [.rightParen]) := by
  intro completion same after _
  obtain ⟨inside, last, rfl, insideKinds, lastKind⟩ := List.map_eq_append_iff.1 same
  obtain ⟨closing, rfl, closes⟩ := List.map_eq_singleton_iff.1 lastKind
  have stops : Stops 1 (closing :: after) := stops_of_no_operator (by rw [closes]; rfl) 1 after
  obtain ⟨e, reads⟩ := h inside insideKinds (closing :: after) stops
  have group := Reads.group opens closes reads
  rw [List.cons_append, List.append_assoc]
  exact ⟨_, group⟩

namespace Blame

variable {level : Nat} {left e : Expr} {token opening : Token} {op : Operator}
  {used rest front : List Token} {cause : Error}

/-- Where an operand has to begin, nothing has been used. -/
theorem operand (blames : Blames cause rest)
    (fails : ∀ rest', rest'.head? = rest.head? → Fails .operand rest' cause) :
    Blame .operand cause [] rest :=
  ⟨blames, nofun, nofun, fails, [.name], isCompletion_name, completes_operand⟩

theorem minus (kind : token.kind = .minus) (blame : Blame .operand cause used rest) :
    Blame .operand cause (token :: used) rest := by
  obtain ⟨kinds, isCompletion, completes⟩ := blame.completes
  refine ⟨blame.blames, ?_, nofun, fun rest' same => .minus kind (blame.fails rest' same), kinds,
    isCompletion, ?_⟩
  · exact List.forall_mem_cons.2 ⟨kind ▸ nofun, blame.others⟩
  · intro completion same after ends
    obtain ⟨e, reads⟩ := completes completion same after ends
    exact ⟨_, .minus kind reads⟩

theorem inside (opens : opening.kind = .leftParen) (blame : Blame (.level 1) cause used rest) :
    Blame .operand cause (opening :: used) rest := by
  obtain ⟨kinds, isCompletion, completes⟩ := blame.completes
  refine ⟨blame.blames, ?_, nofun, fun rest' same => .inside opens (blame.fails rest' same),
    kinds ++ [.rightParen], ?_, completes.group opens⟩
  · exact List.forall_mem_cons.2 ⟨opens ▸ nofun, blame.others⟩
  · exact List.forall_mem_append.2 ⟨isCompletion, List.forall_mem_singleton.2 (.inr rfl)⟩

/-- A group that is not closed is complete but for its closing parenthesis. -/
theorem unclosed (opens : opening.kind = .leftParen) (stops : Stops 1 rest)
    (others : ∀ token ∈ used, token.kind ≠ .finish)
    (reads : ∀ after, Task.Ends (.level 1) after → Reads (.level 1) (used ++ after) e after)
    (other : ∀ token ∈ rest.head?, token.kind ≠ .rightParen) :
    Blame .operand (unexpected .closing rest) (opening :: used) rest := by
  refine ⟨.unexpected _ _, ?_, nofun, fun rest' same => ?_, [.rightParen],
    List.forall_mem_singleton.2 (.inr rfl), ?_⟩
  · exact List.forall_mem_cons.2 ⟨opens ▸ nofun, others⟩
  · rw [← unexpected_congr .closing same]
    exact .unclosed opens (reads rest' (stops.of_head? same)) (same ▸ other)
  · have whole : Completes (.level 1) used [] := by
      intro completion same after ends
      obtain rfl := List.map_eq_nil_iff.1 same
      exact ⟨e, reads after ends⟩
    exact whole.group opens

theorem first (blame : Blame .operand cause used rest) : Blame (.level level) cause used rest := by
  obtain ⟨kinds, isCompletion, completes⟩ := blame.completes
  refine ⟨blame.blames, blame.others, nofun, fun rest' same => .first (blame.fails rest' same),
    kinds, isCompletion, ?_⟩
  intro completion same after ends
  obtain ⟨e, reads⟩ := completes completion same after trivial
  exact ⟨e, .level reads (.stop ends)⟩

theorem more (others : ∀ token ∈ front, token.kind ≠ .finish)
    (reads : ∀ after, Reads .operand (front ++ after) left after)
    (blame : Blame (.chain level left) cause used rest) :
    Blame (.level level) cause (front ++ used) rest := by
  obtain ⟨kinds, isCompletion, completes⟩ := blame.completes
  refine ⟨blame.blames, List.forall_mem_append.2 ⟨others, blame.others⟩, nofun,
    fun rest' same => ?_, kinds, isCompletion, ?_⟩
  · rw [List.append_assoc]
    exact .more (reads _) (blame.fails rest' same)
  · intro completion same after ends
    obtain ⟨e, more⟩ := completes completion same after ends
    rw [List.append_assoc]
    exact ⟨e, .level (reads _) more⟩

theorem right (found : token.kind.operator? = some op) (reaches : level ≤ op.level)
    (blame : Blame (.level (op.level + 1)) cause used rest) :
    Blame (.chain level left) cause (token :: used) rest := by
  obtain ⟨kinds, isCompletion, completes⟩ := blame.completes
  refine ⟨blame.blames, ?_, nofun, fun rest' same => .right found reaches (blame.fails rest' same),
    kinds, isCompletion, ?_⟩
  · exact List.forall_mem_cons.2 ⟨Token.kind_ne_finish_of_operator found, blame.others⟩
  · intro completion same after ends
    have ends : Stops level after := ends
    obtain ⟨e, reads⟩ := completes completion same after (ends.mono (Nat.le_succ_of_le reaches))
    exact ⟨_, .step found reaches reads (.stop ends)⟩

theorem further {right : Expr} (found : token.kind.operator? = some op)
    (reaches : level ≤ op.level) (stops : Stops (op.level + 1) (used ++ rest))
    (others : ∀ token ∈ front, token.kind ≠ .finish)
    (reads : ∀ after, Stops (op.level + 1) after →
      Reads (.level (op.level + 1)) (front ++ after) right after)
    (blame : Blame (.chain level (.binary op left right (left.span.merge right.span))) cause used
      rest) :
    Blame (.chain level left) cause (token :: (front ++ used)) rest := by
  obtain ⟨kinds, isCompletion, completes⟩ := blame.completes
  refine ⟨blame.blames, ?_, nofun, fun rest' same => ?_, kinds, isCompletion, ?_⟩
  · exact List.forall_mem_cons.2 ⟨Token.kind_ne_finish_of_operator found,
      List.forall_mem_append.2 ⟨others, blame.others⟩⟩
  · rw [List.cons_append, List.append_assoc]
    exact .further found reaches (reads _ (stops.of_head? (head?_append_congr same)))
      (blame.fails rest' same)
  · intro completion same after ends
    obtain ⟨e, more⟩ := completes completion same after ends
    -- the operator that goes on with the chain is among what is used
    have stops' : Stops (op.level + 1) (used ++ (completion ++ after)) := by
      cases used with
      | nil => exact absurd rfl (blame.begun trivial)
      | cons joint used => exact stops
    rw [List.cons_append, List.append_assoc]
    exact ⟨e, .step found reaches (reads _ stops') more⟩

end Blame

/-- What a reader has used is a whole operand, or is to be followed by one. -/
theorem Fails.exists_blame {task : Task} {tokens : List Token} {cause : Error}
    (h : Fails task tokens cause) :
    ∃ used rest, tokens = used ++ rest ∧ Blame task cause used rest := by
  induction h with
  | nothing =>
      refine ⟨[], [], rfl, .operand (.unexpected _ _) fun rest' same => ?_⟩
      obtain rfl := List.head?_eq_none_iff.1 same
      exact .nothing
  | @noOperand token rest kind =>
      refine ⟨[], token :: rest, rfl, .operand (.unexpected _ _) fun rest' same => ?_⟩
      obtain ⟨more, rfl⟩ := List.head?_eq_some_iff.1 same
      exact .noOperand kind
  | @literal token rest defect kind reading =>
      refine ⟨[], token :: rest, rfl, .operand (.literal kind reading) fun rest' same => ?_⟩
      obtain ⟨more, rfl⟩ := List.head?_eq_some_iff.1 same
      exact .literal kind reading
  | minus kind _ ih =>
      obtain ⟨used, rest, rfl, blame⟩ := ih
      exact ⟨_ :: used, rest, rfl, blame.minus kind⟩
  | inside opens _ ih =>
      obtain ⟨used, rest, rfl, blame⟩ := ih
      exact ⟨_ :: used, rest, rfl, blame.inside opens⟩
  | unclosed opens inner other =>
      have stops : Stops 1 _ := inner.ends
      obtain ⟨used, rfl, others, reads⟩ := inner.exists_used
      exact ⟨_ :: used, _, rfl, .unclosed opens stops others reads other⟩
  | first _ ih =>
      obtain ⟨used, rest, rfl, blame⟩ := ih
      exact ⟨used, rest, rfl, blame.first⟩
  | more first _ ih =>
      obtain ⟨used, rest, rfl, blame⟩ := ih
      obtain ⟨front, rfl, others, reads⟩ := first.exists_used
      exact ⟨front ++ used, rest, by simp, .more others (fun after => reads after trivial) blame⟩
  | right found reaches _ ih =>
      obtain ⟨used, rest, rfl, blame⟩ := ih
      exact ⟨_ :: used, rest, rfl, blame.right found reaches⟩
  | further found reaches operand _ ih =>
      have stops : Stops _ _ := operand.ends
      obtain ⟨used, rest, rfl, blame⟩ := ih
      obtain ⟨front, rfl, others, reads⟩ := operand.exists_used
      exact ⟨_ :: (front ++ used), rest, by simp, .further found reaches stops others reads blame⟩

/-! ### Whole token lists -/

/-- How a whole token list comes to have no tree: with what has been used, and what is left. -/
structure WholeBlame (cause : Error) (used rest : List Token) : Prop where
  blames : Blames cause rest
  /-- The end is not among what is used. -/
  others : ∀ token ∈ used, token.kind ≠ .finish
  /-- What is left matters by its first token only. -/
  fails : ∀ rest', rest'.head? = rest.head? → Expr.ofTokens (used ++ rest') = .error cause
  /-- What is used can go on, up to the end. -/
  completes : ∃ kinds, IsCompletion kinds ∧ ∀ completion : List Token,
    completion.map Token.kind = kinds → ∀ finish : Token, finish.kind = .finish →
      ∃ e, Expr.ofTokens (used ++ (completion ++ [finish])) = .ok e

theorem ofTokens_of_fails {tokens : List Token} {cause : Error}
    (h : Fails (.level 1) tokens cause) : Expr.ofTokens tokens = .error cause := by
  rw [ofTokens_eq, h.run_eq]
  rfl

theorem ofTokens_of_reads {tokens rest : List Token} {e : Expr}
    (h : Reads (.level 1) tokens e rest) : Expr.ofTokens tokens = atEnd e rest := by
  rw [ofTokens_eq, h.run_eq]
  rfl

/-- Where a token list has no tree, either a reader fails or something is left over. -/
theorem exists_wholeBlame {tokens : List Token} {cause : Error}
    (h : Expr.ofTokens tokens = .error cause) :
    ∃ used rest, tokens = used ++ rest ∧ WholeBlame cause used rest := by
  rw [ofTokens_eq] at h
  rcases bind_eq_error_iff.1 h with failed | ⟨⟨e, rest⟩, read, left⟩
  · obtain ⟨used, rest, rfl, blame⟩ := (fails_iff.2 failed).exists_blame
    obtain ⟨kinds, isCompletion, completes⟩ := blame.completes
    refine ⟨used, rest, rfl, blame.blames, blame.others,
      fun rest' same => ofTokens_of_fails (blame.fails rest' same), kinds, isCompletion, ?_⟩
    intro completion same finish isFinish
    obtain ⟨e, reads⟩ := completes completion same [finish]
      (stops_of_no_operator (by rw [isFinish]; rfl) 1 [])
    exact ⟨e, ofTokens_eq_ok_iff.2 ⟨_, reads, by simp [isFinish]⟩⟩
  · have reads : Reads (.level 1) tokens e rest := reads_iff.2 read
    have stops : Stops 1 rest := reads.ends
    obtain ⟨used, rfl, others, again⟩ := reads.exists_used
    have complaint {rest' : List Token} (same : rest'.head? = rest.head?) :
        atEnd e rest' = .error cause := by
      rw [← left]
      cases rest' with
      | nil => rw [List.head?_eq_none_iff.1 same.symm]
      | cons token more =>
          obtain ⟨more', rfl⟩ := List.head?_eq_some_iff.1 same.symm
          rfl
    refine ⟨used, rest, rfl, ?_, others, ?_, [], nofun, ?_⟩
    · cases rest with
      | nil => cases left
      | cons token more =>
          simp only [atEnd] at left
          split at left
          · cases left
          · cases left
            exact .unexpected _ _
    · intro rest' same
      rw [ofTokens_of_reads (again rest' (stops.of_head? same)), complaint same]
    · intro completion same finish isFinish
      obtain rfl := List.map_eq_nil_iff.1 same
      have ends : Stops 1 [finish] := stops_of_no_operator (by rw [isFinish]; rfl) 1 []
      exact ⟨e, ofTokens_eq_ok_iff.2 ⟨_, again _ ends, by simp [isFinish]⟩⟩

/-! ### The tokens of a text -/

/-- A token before the end is named in the complaint, with its range. -/
theorem Blames.of_token {token : Token} {rest : List Token} {cause : Error}
    (h : Blames cause (token :: rest)) (other : token.kind ≠ .finish) :
    (∃ expected, cause = .unexpectedToken expected token.text token.span) ∨
      ∃ defect, cause = .malformedLiteral token.text defect token.span := by
  cases h with
  | unexpected expected _ =>
      exact .inl ⟨expected, by simp only [Formula.unexpected, other, if_false]⟩
  | literal _ _ => exact .inr ⟨_, rfl⟩

theorem Blames.of_finish {token : Token} {rest : List Token} {cause : Error}
    (h : Blames cause (token :: rest)) (finish : token.kind = .finish) :
    ∃ expected, cause = .unexpectedEnd expected token.span := by
  cases h with
  | unexpected expected _ => exact ⟨expected, by simp only [Formula.unexpected, finish, if_true]⟩
  | literal kind _ =>
      rw [finish] at kind
      cases kind

/-- What is left of a text's tokens begins with one of them, or is the end. -/
theorem WholeBlame.cases {cause : Error} {used rest body : List Token} {finish : Token}
    (h : WholeBlame cause used rest) (whole : body ++ [finish] = used ++ rest)
    (isFinish : finish.kind = .finish) :
    (used = body ∧ rest = [finish]) ∨
      ∃ token back, body = used ++ token :: back ∧ rest = token :: (back ++ [finish]) := by
  rcases List.append_eq_append_iff.1 whole with ⟨gap, rfl, split⟩ | ⟨left, rfl, rfl⟩
  · cases gap with
    | nil => exact .inl ⟨List.append_nil body, split.symm⟩
    | cons token gap =>
        obtain ⟨rfl, -⟩ := List.cons.inj split
        exact absurd isFinish (h.others finish (by simp))
  · cases left with
    | nil => exact .inl ⟨(List.append_nil used).symm, rfl⟩
    | cons token back => exact .inr ⟨token, back, rfl, rfl⟩

end Metrology.Formula
