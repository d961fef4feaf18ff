/-
Module: Metrology.Proofs.LexingRun
Layer: Proofs
Purpose: Successful runs of the lexer as one relation, and parts of them. The lexer remembers
  nothing between two tokens and looks ahead only within a token, so it can start again at any
  token, and it can be stopped behind any: the characters between are lexed to the tokens between.
  Moving the text moves all ranges alike.
Imports: Metrology.Proofs.Lexing
Main exports: Token.Scans, Token.scans_iff, Token.Scans.ends, Token.Scans.lexFrom_append,
  Token.Scans.mapOffsets, Token.Scans.from_token, Token.Scans.up_to_token,
  Token.Scans.pairwise_precedes
-/
import Metrology.Proofs.Lexing

namespace Metrology

/-- The range with both ends moved. -/
def Span.mapOffsets (move : Nat → Nat) (s : Span) : Span := ⟨move s.start, move s.stop⟩

namespace Formula.Token

/-- The token at another place. -/
def mapOffsets (move : Nat → Nat) (token : Token) : Token :=
  { token with span := token.span.mapOffsets move }

/-- `Scans offset cs tokens`: the characters at the offset are lexed to the tokens. -/
inductive Scans : Nat → List Char → List Token → Prop where
  | finish {offset : Nat} : Scans offset [] [⟨.finish, .point offset, ""⟩]
  | blank {offset : Nat} {c : Char} {cs : List Char} {tokens : List Token}
      (isBlank : isBlank c = true) (others : Scans (offset + c.utf8Size) cs tokens) :
      Scans offset (c :: cs) tokens
  | lexeme {offset : Nat} {c : Char} {more rest : List Char} {kind : TokenKind}
      {tokens : List Token} (visible : Token.isBlank c = false)
      (found : lexeme? c (more ++ rest) = some (kind, more.length))
      (others : Scans (offset + byteLength (c :: more)) rest tokens) :
      Scans offset (c :: more ++ rest)
        (⟨kind, ⟨offset, offset + byteLength (c :: more)⟩, String.ofList (c :: more)⟩ :: tokens)

/-! ### The relation and the lexer -/

theorem Scans.lexFrom_eq {offset : Nat} {cs : List Char} {tokens : List Token}
    (h : Scans offset cs tokens) : lexFrom offset cs = .ok tokens := by
  induction h with
  | finish => exact lexFrom_nil _
  | blank isBlank _ ih => rw [lexFrom_blank isBlank, ih]
  | lexeme visible found _ ih => rw [lexFrom_lexeme visible found, ih]; rfl

theorem numberLength_le (hex : Bool) (last : Char) (cs : List Char) :
    numberLength hex last cs ≤ cs.length := by
  induction cs generalizing last with
  | nil => exact Nat.le_refl 0
  | cons c cs ih =>
      rw [numberLength]
      split
      · exact Nat.succ_le_succ (ih c)
      · exact Nat.zero_le _

/-- A lexeme does not reach beyond the text. -/
theorem length_le_of_lexeme? {c : Char} {rest : List Char} {kind : TokenKind} {more : Nat}
    (h : lexeme? c rest = some (kind, more)) : more ≤ rest.length := by
  unfold lexeme? at h
  split at h
  · cases h
    exact (List.takeWhile_prefix _).length_le
  split at h
  · cases h
    exact numberLength_le _ _ _
  · obtain ⟨found, -, same⟩ := Option.map_eq_some_iff.1 h
    cases same
    exact Nat.zero_le _

/-- A lexeme ends where as many characters as it has are taken off. -/
theorem lexeme?_take_drop {c : Char} {rest : List Char} {kind : TokenKind} {more : Nat}
    (h : lexeme? c rest = some (kind, more)) :
    lexeme? c (rest.take more ++ rest.drop more) = some (kind, (rest.take more).length) := by
  rw [List.take_append_drop, List.length_take_of_le (length_le_of_lexeme? h), h]

theorem scans_of_lexFrom {offset : Nat} {cs : List Char} {tokens : List Token}
    (h : lexFrom offset cs = .ok tokens) : Scans offset cs tokens := by
  fun_induction lexFrom offset cs generalizing tokens with
  | case1 offset => cases h; exact .finish
  | case2 offset c rest isBlank ih => exact .blank isBlank (ih h)
  | case3 => cases h
  | case4 offset c rest visible kind more found text stop after lexed =>
      rename_i ih
      cases h
      have scanned := Scans.lexeme (by simpa using visible) (lexeme?_take_drop found) (ih lexed)
      rwa [List.cons_append, List.take_append_drop] at scanned
  | case5 => cases h

theorem scans_iff {offset : Nat} {cs : List Char} {tokens : List Token} :
    Scans offset cs tokens ↔ lexFrom offset cs = .ok tokens :=
  ⟨Scans.lexFrom_eq, scans_of_lexFrom⟩

/-- The run ends with one `finish` token behind the text. -/
theorem Scans.ends {offset : Nat} {cs : List Char} {tokens : List Token}
    (h : Scans offset cs tokens) :
    ∃ body, tokens = body ++ [⟨.finish, .point (offset + byteLength cs), ""⟩] ∧
      ∀ token ∈ body, token.kind ≠ .finish := by
  induction h with
  | finish => exact ⟨[], rfl, fun token mem => by cases mem⟩
  | blank _ _ ih =>
      obtain ⟨body, rfl, kinds⟩ := ih
      exact ⟨body, by rw [byteLength_cons, Nat.add_assoc], kinds⟩
  | @lexeme offset c more rest kind tokens visible found _ ih =>
      obtain ⟨body, rfl, kinds⟩ := ih
      refine ⟨_ :: body, by rw [byteLength_append, Nat.add_assoc]; rfl, ?_⟩
      exact List.forall_mem_cons.2 ⟨lexeme?_kind_ne_finish found, kinds⟩

/-- A lexeme looks ahead for its own end only, so what stands behind may be cut off. -/
theorem lexeme?_of_append {c : Char} {more kept gone : List Char} {kind : TokenKind}
    (h : lexeme? c (more ++ (kept ++ gone)) = some (kind, more.length)) :
    lexeme? c (more ++ kept) = some (kind, more.length) := by
  refine lexeme?_of_head? h fun d mem => ?_
  obtain ⟨tail, rfl⟩ := List.head?_eq_some_iff.1 mem
  rfl

/-- The tokens of a text are the same before a character that goes on with no lexeme. -/
theorem Scans.lexFrom_append {offset stop : Nat} {cs : List Char} {tokens : List Token} {d : Char}
    (h : Scans offset cs (tokens ++ [⟨.finish, .point stop, ""⟩]))
    (apart : ∀ hex kind last, goesOn hex kind last d = false) (rest : List Char) :
    lexFrom offset (cs ++ d :: rest) =
      (lexFrom (offset + byteLength cs) (d :: rest)).map (tokens ++ ·) := by
  generalize whole : tokens ++ [⟨.finish, .point stop, ""⟩] = all at h
  induction h generalizing tokens with
  | @finish offset =>
      cases tokens with
      | nil =>
          change lexFrom offset (d :: rest) = (lexFrom offset (d :: rest)).map ([] ++ ·)
          cases lexFrom offset (d :: rest) <;> rfl
      | cons token tokens => simp at whole
  | @blank offset c cs all isBlank _ ih =>
      rw [List.cons_append, lexFrom_blank isBlank, ih whole, byteLength_cons, Nat.add_assoc]
  | @lexeme offset c more after kind all visible found _ ih =>
      cases tokens with
      | nil =>
          obtain ⟨same, -⟩ := List.cons.inj whole
          exact absurd (congrArg Token.kind same).symm (lexeme?_kind_ne_finish found)
      | cons token tokens =>
          obtain ⟨rfl, others⟩ := List.cons.inj whole
          have ends : lexeme? c (more ++ (after ++ d :: rest)) = some (kind, more.length) := by
            refine lexeme?_of_next found fun first mem => ?_
            cases after with
            | nil => exact .inr (Option.some.inj mem ▸ apart)
            | cons _ _ => exact .inl mem
          rw [List.append_assoc, lexFrom_lexeme visible ends, ih others, byteLength_append,
            Nat.add_assoc]
          cases lexFrom _ (d :: rest) <;> rfl

/-! ### Parts of a run -/

namespace Scans

variable {offset : Nat} {cs : List Char} {token : Token} {front back tokens : List Token}

/-- Moving the text moves the tokens. -/
theorem mapOffsets {move : Nat → Nat} (h : Scans offset cs tokens)
    (moves : ∀ n, move (offset + n) = move offset + n) :
    Scans (move offset) cs (tokens.map (Token.mapOffsets move)) := by
  induction h with
  | finish => exact .finish
  | @blank offset c cs tokens isBlank _ ih =>
      have later := ih fun n => by rw [Nat.add_assoc, moves, moves, Nat.add_assoc]
      rw [moves] at later
      exact .blank isBlank later
  | @lexeme offset c more rest kind tokens visible found _ ih =>
      have later := ih fun n => by rw [Nat.add_assoc, moves, moves, Nat.add_assoc]
      rw [moves] at later
      have moved := Scans.lexeme visible found later
      rwa [← moves] at moved

/-- The lexer can start again at any token. -/
theorem from_token (h : Scans offset cs (front ++ token :: back)) :
    ∃ before rest, cs = before ++ rest ∧ token.span.start = offset + byteLength before ∧
      Scans token.span.start rest (token :: back) := by
  generalize whole : front ++ token :: back = tokens at h
  induction h generalizing front with
  | @finish offset =>
      cases front with
      | nil =>
          obtain ⟨rfl, rfl⟩ := List.cons.inj whole
          exact ⟨[], [], rfl, rfl, .finish⟩
      | cons first front => simp at whole
  | @blank offset c cs tokens isBlank _ ih =>
      obtain ⟨before, rest, rfl, start, scans⟩ := ih whole
      exact ⟨c :: before, rest, rfl, by rw [start, byteLength_cons, Nat.add_assoc], scans⟩
  | @lexeme offset c more rest kind tokens visible found others ih =>
      cases front with
      | nil =>
          obtain ⟨rfl, rfl⟩ := List.cons.inj whole
          exact ⟨[], _, rfl, rfl, .lexeme visible found others⟩
      | cons first front =>
          obtain ⟨before, rest, rfl, start, scans⟩ := ih (List.cons.inj whole).2
          refine ⟨c :: more ++ before, rest, by simp, ?_, scans⟩
          rw [start, byteLength_append, Nat.add_assoc]

/-- The lexer can be stopped behind any token but the last. -/
theorem up_to_token (h : Scans offset cs (front ++ token :: back)) (kind : token.kind ≠ .finish) :
    ∃ text after, cs = text ++ after ∧ token.span.stop = offset + byteLength text ∧
      Scans offset text (front ++ [token, ⟨.finish, .point token.span.stop, ""⟩]) := by
  generalize whole : front ++ token :: back = tokens at h
  induction h generalizing front with
  | @finish offset =>
      cases front with
      | nil =>
          obtain ⟨rfl, -⟩ := List.cons.inj whole
          exact absurd rfl kind
      | cons first front => simp at whole
  | @blank offset c cs tokens isBlank _ ih =>
      obtain ⟨text, after, rfl, stop, scans⟩ := ih whole
      refine ⟨c :: text, after, rfl, by rw [stop, byteLength_cons, Nat.add_assoc], ?_⟩
      exact .blank isBlank scans
  | @lexeme offset c more rest kind' tokens visible found others ih =>
      cases front with
      | nil =>
          obtain ⟨rfl, rfl⟩ := List.cons.inj whole
          refine ⟨c :: more, rest, rfl, rfl, ?_⟩
          have found' : lexeme? c (more ++ ([] ++ rest)) = some (kind', more.length) := found
          have stopped : Scans (offset + byteLength (c :: more)) [] _ := .finish
          have alone := Scans.lexeme visible (lexeme?_of_append found') stopped
          rwa [List.append_nil] at alone
      | cons first front =>
          obtain ⟨rfl, others⟩ := List.cons.inj whole
          obtain ⟨text, after, rfl, stop, scans⟩ := ih others
          refine ⟨c :: more ++ text, after, by simp, ?_, ?_⟩
          · rw [stop, byteLength_append, Nat.add_assoc]
          · exact .lexeme visible (lexeme?_of_append found) scans

/-- Adjacent tokens are the tokens of the characters from the start of the first to the end of the
    last one. -/
theorem part {middle : List Token} {first last : Token}
    (h : Scans offset cs (front ++ middle ++ back)) (isFirst : middle.head? = some first)
    (isLast : middle.getLast? = some last) (kind : last.kind ≠ .finish) :
    ∃ before text after, cs = before ++ (text ++ after) ∧
      first.span.start = offset + byteLength before ∧
      last.span.stop = first.span.start + byteLength text ∧
      Scans first.span.start text (middle ++ [⟨.finish, .point last.span.stop, ""⟩]) := by
  obtain ⟨more, begins⟩ := List.head?_eq_some_iff.1 isFirst
  obtain ⟨most, ends⟩ := List.getLast?_eq_some_iff.1 isLast
  have fromFirst : front ++ middle ++ back = front ++ first :: (more ++ back) := by
    simp [begins]
  rw [fromFirst] at h
  obtain ⟨before, rest, rfl, start, scans⟩ := h.from_token
  have upToLast : first :: (more ++ back) = most ++ last :: back := by
    rw [← List.cons_append, ← begins, ends]
    simp
  rw [upToLast] at scans
  obtain ⟨text, after, rfl, stop, scans⟩ := scans.up_to_token kind
  refine ⟨before, text, after, rfl, start, stop, ?_⟩
  rw [ends]
  simpa using scans

theorem unique {tokens' : List Token} (h : Scans offset cs tokens) (h' : Scans offset cs tokens') :
    tokens = tokens' :=
  Except.ok.inj (h.lexFrom_eq.symm.trans h'.lexFrom_eq)

end Scans

/-! ### The order of the tokens -/

/-- Neither end of the range of the first token is behind that of the second. -/
def Precedes (first second : Token) : Prop :=
  first.span.start ≤ second.span.start ∧ first.span.stop ≤ second.span.stop

theorem Scans.offset_le {offset : Nat} {cs : List Char} {tokens : List Token}
    (h : Scans offset cs tokens) :
    ∀ token ∈ tokens, offset ≤ token.span.start ∧ offset ≤ token.span.stop := by
  induction h with
  | finish => simp [Span.point]
  | blank _ _ ih =>
      intro token mem
      have later := ih token mem
      omega
  | lexeme _ _ _ ih =>
      intro token mem
      rcases List.mem_cons.1 mem with rfl | other
      · exact ⟨Nat.le_refl _, Nat.le_add_right _ _⟩
      · have later := ih token other
        omega

/-- Tokens stand in the order of their places. -/
theorem Scans.pairwise_precedes {offset : Nat} {cs : List Char} {tokens : List Token}
    (h : Scans offset cs tokens) : tokens.Pairwise Precedes := by
  induction h with
  | finish => exact List.pairwise_singleton _ _
  | blank _ _ ih => exact ih
  | lexeme _ _ others ih =>
      refine List.pairwise_cons.2 ⟨fun token mem => ?_, ih⟩
      obtain ⟨start, stop⟩ := others.offset_le token mem
      exact ⟨Nat.le_trans (Nat.le_add_right _ _) start, stop⟩

end Formula.Token

end Metrology
