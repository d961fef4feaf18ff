/-
Module: Metrology.Proofs.Tokenization
Layer: Proofs
Purpose: What the lexer makes of any text. The tokens of a text stand one behind the other, each for
  the text in its range, with nothing but blanks around them, and none could be longer: no two names
  touch, and no number is followed by what a number could contain. A text without tokens has a first
  character that is foreign to formulas and that no number takes in; what is before it has tokens,
  and it is the one that is reported.
Imports: Metrology.Proofs.SpanFaithfulness
Main exports: Token.Scans.exists_lexeme, Token.Scans.isNameChar_of_name, Token.Scans.not_goesOn,
  Token.Tokenizes, Token.Scans.tokenizes, Token.Foreign, Token.InsideNumber, Token.Refused,
  Token.lex_eq_error_iff_refused, Token.lex_outcome
-/
import Metrology.Proofs.SpanFaithfulness

namespace Metrology

/-- A text splits at a byte offset in one way only. -/
theorem append_inj_of_byteLength {front back front' back' : List Char}
    (same : front ++ back = front' ++ back') (length : byteLength front = byteLength front') :
    front = front' ∧ back = back' := by
  have split : splitAtByte? (byteLength front') (front ++ back) = some (front, back) :=
    splitAtByte?_eq_some_iff.2 ⟨rfl, length⟩
  rw [splitAtByte?_eq_some_iff.2 ⟨same, rfl⟩] at split
  exact Prod.mk.inj (Option.some.inj split.symm)

namespace Formula.Token

/-! ### Tokens of a text -/

section Run

variable {offset : Nat} {cs : List Char} {tokens : List Token}

/-- Each token before `finish` is a lexeme of the text at its range. -/
theorem Scans.exists_lexeme (h : Scans offset cs tokens) :
    ∀ token ∈ tokens, token.kind ≠ .finish → ∃ before c more after,
      cs = before ++ (c :: more ++ after) ∧ token.span.start = offset + byteLength before ∧
      token.span.stop = token.span.start + byteLength (c :: more) ∧
      token.text = String.ofList (c :: more) ∧
      lexeme? c (more ++ after) = some (token.kind, more.length) := by
  induction h with
  | finish =>
      intro token mem kind
      obtain rfl := List.mem_singleton.1 mem
      exact absurd rfl kind
  | @blank offset c cs tokens _ _ ih =>
      intro token mem kind
      obtain ⟨before, d, more, after, rfl, start, rest⟩ := ih token mem kind
      exact ⟨c :: before, d, more, after, rfl, by rw [start, byteLength_cons, Nat.add_assoc], rest⟩
  | @lexeme offset c more rest kind' tokens _ found _ ih =>
      intro token mem kind
      rcases List.mem_cons.1 mem with rfl | later
      · exact ⟨[], c, more, rest, rfl, rfl, rfl, rfl, found⟩
      · obtain ⟨before, d, more', after, rfl, start, others⟩ := ih token later kind
        refine ⟨c :: more ++ before, d, more', after, by simp, ?_, others⟩
        rw [start, byteLength_append, Nat.add_assoc]

theorem isNameChar_of_lexeme? {c : Char} {more : List Char}
    (h : lexeme? c more = some (.name, more.length)) : ∀ d ∈ c :: more, isNameChar d = true := by
  unfold lexeme? at h
  split at h
  · next first =>
    have length : (more.takeWhile isNameChar).length = more.length :=
      congrArg Prod.snd (Option.some.inj h)
    have whole := (List.takeWhile_prefix isNameChar).eq_of_length length
    refine List.forall_mem_cons.2 ⟨first, ?_⟩
    rw [← whole]
    exact List.all_eq_true.1 List.all_takeWhile
  split at h
  · cases h
  · obtain ⟨found, operator, same⟩ := Option.map_eq_some_iff.1 h
    exact absurd (congrArg Prod.fst same) (operatorKind?_ne operator).1

/-- Names are made of name characters. -/
theorem Scans.isNameChar_of_name (h : Scans offset cs tokens) {token : Token}
    (mem : token ∈ tokens) (name : token.kind = .name) :
    token.text.toList ≠ [] ∧ ∀ c ∈ token.text.toList, isNameChar c = true := by
  obtain ⟨_, c, more, rest, _, _, _, text, found⟩ := h.exists_lexeme token mem (name ▸ nofun)
  rw [name] at found
  rw [text, String.toList_ofList]
  exact ⟨List.cons_ne_nil c more, isNameChar_of_lexeme? (lexeme?_append_iff.1 found).1⟩

/-- The character right behind a token does not go on with it. -/
theorem Scans.not_goesOn (h : Scans offset cs tokens) {token : Token} (mem : token ∈ tokens)
    (kind : token.kind ≠ .finish) {before after : List Char} {d : Char}
    (whole : cs = before ++ d :: after) (behind : token.span.stop = offset + byteLength before) :
    ∃ hex last, goesOn hex token.kind last d = false := by
  obtain ⟨front, c, more, rest, split, start, stop, _, found⟩ := h.exists_lexeme token mem kind
  obtain ⟨-, ends⟩ := lexeme?_append_iff.1 found
  rw [split, ← List.append_assoc] at whole
  have length : byteLength (front ++ c :: more) = byteLength before := by
    rw [byteLength_append]
    omega
  obtain ⟨-, rfl⟩ := append_inj_of_byteLength whole length
  exact ⟨_, _, ends d rfl⟩

/-- Each token ends before the next one begins. -/
theorem Scans.pairwise_disjoint (h : Scans offset cs tokens) :
    tokens.Pairwise fun a b => a.span.stop ≤ b.span.start := by
  induction h with
  | finish => exact List.pairwise_singleton _ _
  | blank _ _ ih => exact ih
  | lexeme _ _ others ih =>
      exact List.pairwise_cons.2 ⟨fun token mem => (others.offset_le token mem).1, ih⟩

/-- A character is a blank or inside of a token. -/
theorem Scans.blank_or_inside (h : Scans offset cs tokens) {before after : List Char} {c : Char}
    (whole : cs = before ++ c :: after) :
    isBlank c = true ∨ ∃ token ∈ tokens, token.span.start ≤ offset + byteLength before ∧
      offset + byteLength before + c.utf8Size ≤ token.span.stop := by
  induction h generalizing before with
  | finish => simp at whole
  | @blank offset d cs tokens isBlank _ ih =>
      cases before with
      | nil =>
          obtain ⟨rfl, -⟩ := List.cons.inj whole
          exact .inl isBlank
      | cons first before =>
          obtain ⟨rfl, later⟩ := List.cons.inj whole
          rw [byteLength_cons, ← Nat.add_assoc]
          exact ih later
  | @lexeme offset d more rest kind tokens _ _ _ ih =>
      have behind {front : List Char} (split : rest = front ++ c :: after) :
          isBlank c = true ∨ ∃ token ∈ tokens,
            token.span.start ≤ offset + byteLength (d :: more ++ front) ∧
            offset + byteLength (d :: more ++ front) + c.utf8Size ≤ token.span.stop := by
        rw [byteLength_append, ← Nat.add_assoc]
        exact ih split
      rcases List.append_eq_append_iff.1 whole with ⟨front, rfl, split⟩ | ⟨back, inside, split⟩
      · exact (behind split).imp_right fun ⟨token, mem, range⟩ =>
          ⟨token, List.mem_cons_of_mem _ mem, range⟩
      · cases back with
        | nil =>
            rw [List.append_nil] at inside
            rw [← inside, ← List.append_nil (d :: more)]
            exact (@behind [] split.symm).imp_right fun ⟨token, mem, range⟩ =>
              ⟨token, List.mem_cons_of_mem _ mem, range⟩
        | cons first back =>
            obtain ⟨rfl, -⟩ := List.cons.inj split
            refine .inr ⟨_, List.mem_cons_self, Nat.le_add_right _ _, ?_⟩
            simp only [inside, byteLength_append, byteLength_cons]
            omega

end Run

/-- What a list of tokens has to be to make up a text. -/
structure Tokenizes (source : String) (tokens : List Token) : Prop where
  /-- No token is empty. -/
  nonempty : ∀ token ∈ tokens, token.span.start < token.span.stop
  /-- The tokens stand one behind the other and share nothing. -/
  disjoint : tokens.Pairwise fun a b => a.span.stop ≤ b.span.start
  /-- A token has the text in its range. -/
  text : ∀ token ∈ tokens, token.span.slice? source = some token.text
  /-- The text of a token is one lexeme of its kind. -/
  lexeme : ∀ token ∈ tokens, ∃ c more, token.text.toList = c :: more ∧
    lexeme? c more = some (token.kind, more.length)
  /-- What is in no token is blank. -/
  blanks : ∀ before c after, source.toList = before ++ c :: after → isBlank c = true ∨
    ∃ token ∈ tokens, token.span.start ≤ byteLength before ∧
      byteLength before + c.utf8Size ≤ token.span.stop
  /-- No two names touch. -/
  names : ∀ a ∈ tokens, ∀ b ∈ tokens, a.kind = .name → b.kind = .name →
    a.span.stop ≠ b.span.start
  /-- No letter, digit, underscore or point stands right behind a number. -/
  numbers : ∀ token ∈ tokens, token.kind = .number → ∀ before c after,
    source.toList = before ++ c :: after → byteLength before = token.span.stop →
    isLetter c = false ∧ isDigit c = false ∧ c ≠ '_' ∧ c ≠ '.'

theorem isNumberChar_eq_false_iff {c : Char} :
    isNumberChar c = false ↔ isLetter c = false ∧ isDigit c = false ∧ c ≠ '_' ∧ c ≠ '.' := by
  simp [isNumberChar, and_assoc]

/-- What does not go on with a number is no character of a number. -/
theorem isNumberChar_of_not_goesOn {hex : Bool} {last c : Char}
    (h : goesOn hex .number last c = false) : isNumberChar c = false :=
  (Bool.or_eq_false_iff.1 h).1

theorem Scans.tokenizes {source : String} {body : List Token} {stop : Nat}
    (h : Scans 0 source.toList (body ++ [⟨.finish, .point stop, ""⟩]))
    (kinds : ∀ token ∈ body, token.kind ≠ .finish) : Tokenizes source body := by
  have lexemes : ∀ token ∈ body, ∃ before c more after,
      source.toList = before ++ (c :: more ++ after) ∧ token.span.start = byteLength before ∧
      token.span.stop = token.span.start + byteLength (c :: more) ∧
      token.text = String.ofList (c :: more) ∧
      lexeme? c more = some (token.kind, more.length) := by
    intro token mem
    obtain ⟨before, c, more, after, whole, start, stop, text, found⟩ :=
      h.exists_lexeme token (List.mem_append_left _ mem) (kinds token mem)
    rw [Nat.zero_add] at start
    exact ⟨before, c, more, after, whole, start, stop, text, (lexeme?_append_iff.1 found).1⟩
  have behind : ∀ token ∈ body, ∀ before d after, source.toList = before ++ d :: after →
      byteLength before = token.span.stop → ∃ hex last, goesOn hex token.kind last d = false := by
    intro token mem before d after whole ends
    refine h.not_goesOn (List.mem_append_left _ mem) (kinds token mem) whole ?_
    rw [Nat.zero_add, ends]
  constructor
  case nonempty =>
    intro token mem
    obtain ⟨_, c, more, _, _, _, stop, _⟩ := lexemes token mem
    have pos := c.utf8Size_pos
    rw [stop, byteLength_cons]
    omega
  case disjoint => exact (List.pairwise_append.1 h.pairwise_disjoint).1
  case text =>
    intro token mem
    obtain ⟨before, c, more, after, whole, start, stop, text, _⟩ := lexemes token mem
    apply Span.slice?_eq_some_iff.2
    refine ⟨before, after, ?_, start.symm, ?_⟩
    · rw [whole, text, String.toList_ofList]
    · rw [stop, text, String.toList_ofList]
  case lexeme =>
    intro token mem
    obtain ⟨_, c, more, _, _, _, _, text, alone⟩ := lexemes token mem
    exact ⟨c, more, by rw [text, String.toList_ofList], alone⟩
  case blanks =>
    intro before c after whole
    rcases h.blank_or_inside whole with blank | ⟨token, mem, start, stop⟩
    · exact .inl blank
    · rw [Nat.zero_add] at start stop
      refine .inr ⟨token, ?_, start, stop⟩
      rcases List.mem_append.1 mem with inBody | last
      · exact inBody
      · -- The last token is empty.
        obtain rfl := List.mem_singleton.1 last
        have pos := c.utf8Size_pos
        simp only [Span.point] at start stop
        omega
  case names =>
    intro a memA b memB nameA nameB touch
    obtain ⟨before, c, more, after, whole, start, _, _, alone⟩ := lexemes b memB
    obtain ⟨hex, last, notName⟩ := behind a memA before c _ whole (by rw [touch, start])
    rw [lexeme?_eq, nameB, Option.map_eq_some_iff] at alone
    obtain ⟨kind, first, same⟩ := alone
    cases (Prod.mk.inj same).1
    rw [nameA, goesOn, kindOf?_eq_name_iff.1 first] at notName
    cases notName
  case numbers =>
    intro token mem number before c after whole ends
    obtain ⟨hex, last, notNumber⟩ := behind token mem before c after whole ends
    rw [number] at notNumber
    exact isNumberChar_eq_false_iff.1 (isNumberChar_of_not_goesOn notNumber)

/-! ### Texts without tokens -/

theorem operatorKind?_eq_none_iff {c : Char} :
    operatorKind? c = none ↔ c ∉ ['+', '-', '*', '/', '^', '(', ')'] := by
  unfold operatorKind?
  split <;> simp_all

/-- A character that neither separates tokens nor begins one. -/
def Foreign (c : Char) : Prop :=
  isBlank c = false ∧ isLetter c = false ∧ isDigit c = false ∧ c ≠ '_' ∧
    c ∉ ['+', '-', '*', '/', '^', '(', ')']

/-- A character is foreign when it is no blank and begins no lexeme. -/
theorem foreign_iff {c : Char} : Foreign c ↔ isBlank c = false ∧ kindOf? c = none := by
  have noName : isNameChar c = false ↔ isLetter c = false ∧ c ≠ '_' := by
    simp [isNameChar]
  have kinds : kindOf? c = none ↔
      isNameChar c = false ∧ isDigit c = false ∧ operatorKind? c = none := by
    rw [kindOf?]
    cases isNameChar c <;> cases isDigit c <;> simp
  rw [Foreign, kinds, noName, operatorKind?_eq_none_iff]
  simp only [and_assoc, and_left_comm]

theorem Foreign.lexeme?_eq_none {c : Char} (h : Foreign c) (rest : List Char) :
    lexeme? c rest = none := by
  rw [lexeme?_eq, (foreign_iff.1 h).2, Option.map_none]

/-- The point is the only foreign character that a token takes in, and only a number does. -/
theorem Foreign.goesOn_eq_false {c : Char} (h : Foreign c) {hex : Bool} {kind : TokenKind}
    {last : Char} (noPoint : kind = .number → c ≠ '.') : goesOn hex kind last c = false := by
  obtain ⟨-, letter, digit, underscore, operator⟩ := h
  cases kind with
  | name => simp [goesOn, isNameChar, letter, underscore]
  | number =>
      simp only [List.mem_cons, not_or] at operator
      simp [goesOn, isNumberChar_eq_false_iff.2 ⟨letter, digit, underscore, noPoint rfl⟩, isSign,
        operator]
  | _ => rfl

/-- What the lexer stops at: it has made tokens of all that is before, and the character is foreign
    and no part of a number that ends there. -/
theorem exists_foreign_of_lexFrom_error {offset : Nat} {cs : List Char} {err : Error}
    (h : lexFrom offset cs = .error err) :
    ∃ front c after tokens, cs = front ++ c :: after ∧ Scans offset front tokens ∧ Foreign c ∧
      (∀ token ∈ tokens, token.kind = .number → token.span.stop = offset + byteLength front →
        c ≠ '.') ∧
      err = .unexpectedCharacter c
        ⟨offset + byteLength front, offset + byteLength front + c.utf8Size⟩ := by
  fun_induction lexFrom offset cs with
  | case1 => cases h
  | case2 offset b rest blank ih =>
      obtain ⟨front, c, after, tokens, rfl, scans, foreign, ends, rfl⟩ := ih h
      simp only [Nat.add_assoc offset] at ends
      refine ⟨b :: front, c, after, tokens, rfl, .blank blank scans, foreign, ?_, ?_⟩
      · exact ends
      · rw [byteLength_cons, Nat.add_assoc offset]
  | case3 offset c rest visible noLexeme =>
      cases h
      have foreign : Foreign c := by
        rw [lexeme?_eq, Option.map_eq_none_iff] at noLexeme
        exact foreign_iff.2 ⟨by simpa using visible, noLexeme⟩
      refine ⟨[], c, rest, _, rfl, .finish, foreign, ?_, rfl⟩
      intro token mem number
      obtain rfl := List.mem_singleton.1 mem
      cases number
  | case4 => cases h
  | case5 offset b rest visible kind more found text stop e failed ih =>
      cases h
      obtain ⟨front, c, after, tokens, behind, scans, foreign, ends, rfl⟩ := ih failed
      have whole : rest = rest.take more ++ (front ++ c :: after) := by
        rw [← behind, List.take_append_drop]
      have found' := lexeme?_take_drop found
      rw [behind] at found'
      have scanned := Scans.lexeme (by simpa using visible) (lexeme?_of_append found') scans
      have moved : stop + byteLength front = offset + byteLength (text ++ front) := by
        rw [byteLength_append, ← Nat.add_assoc]
      refine ⟨text ++ front, c, after, _, ?_, scanned, foreign, ?_, by rw [moved]⟩
      · rw [List.append_assoc]
        exact congrArg (b :: ·) whole
      · refine List.forall_mem_cons.2 ⟨?_, by rwa [← moved]⟩
        intro number atEnd
        -- The number is the last token before the character, which does not go on with it.
        have nothing : front = [] := by
          rw [← moved] at atEnd
          exact byteLength_eq_zero_iff.1 (Nat.left_eq_add.1 atEnd)
        rw [nothing] at found'
        obtain ⟨-, stops⟩ := lexeme?_append_iff.1 found'
        have noNumber := stops c rfl
        simp only at number
        rw [number] at noNumber
        exact (isNumberChar_eq_false_iff.1 (isNumberChar_of_not_goesOn noNumber)).2.2.2

/-- The lexer stops at the first foreign character that no number takes in. -/
theorem Scans.lexFrom_foreign {offset : Nat} {front : List Char} {tokens : List Token} {c : Char}
    (h : Scans offset front tokens) (foreign : Foreign c)
    (ends : ∀ token ∈ tokens, token.kind = .number →
      token.span.stop = offset + byteLength front → c ≠ '.') (after : List Char) :
    lexFrom offset (front ++ c :: after) = .error (.unexpectedCharacter c
      ⟨offset + byteLength front, offset + byteLength front + c.utf8Size⟩) := by
  induction h with
  | finish =>
      rw [List.nil_append, lexFrom]
      simp only [foreign.1, foreign.lexeme?_eq_none, Bool.false_eq_true, if_false]
      rfl
  | @blank offset b cs tokens blank _ ih =>
      rw [List.cons_append, lexFrom_blank blank, byteLength_cons, ← Nat.add_assoc]
      refine ih fun token mem number stop => ends token mem number ?_
      rw [stop, byteLength_cons, Nat.add_assoc]
  | @lexeme offset b more rest kind tokens visible found _ ih =>
      have found' : lexeme? b (more ++ (rest ++ c :: after)) = some (kind, more.length) := by
        cases rest with
        | nil =>
            refine lexeme?_append_iff.2 ⟨(lexeme?_append_iff.1 found).1, ?_⟩
            intro d mem
            cases mem
            refine foreign.goesOn_eq_false fun number => ends _ List.mem_cons_self number ?_
            rw [List.append_nil]
        | cons d rest => exact lexeme?_of_head? found fun _ mem => mem
      rw [List.append_assoc, lexFrom_lexeme visible found', ih, byteLength_append,
        ← Nat.add_assoc]
      · rfl
      · intro token mem number stop
        refine ends token (List.mem_cons_of_mem _ mem) number ?_
        rw [stop, byteLength_append, Nat.add_assoc]

/-- The scan goes on behind a text that it takes in. -/
theorem scanLength_concat {goesOn : Char → Char → Bool} {last c : Char} {text : List Char}
    (h : scanLength goesOn last text = text.length) (next : goesOn (text.getLastD last) c = true) :
    scanLength goesOn last (text ++ [c]) = (text ++ [c]).length := by
  induction text generalizing last with
  | nil => simpa [scanLength] using next
  | cons d text ih =>
      rw [List.getLastD_cons] at next
      rw [List.cons_append, scanLength]
      rw [scanLength] at h
      cases first : goesOn last d with
      | false => simp [first] at h
      | true =>
          simp only [first, if_true, List.length_cons, Nat.add_right_cancel_iff] at h ⊢
          exact ih h next

/-- A number takes in the point that stands right behind it. -/
theorem lexeme?_number_point {c : Char} {text : List Char}
    (h : lexeme? c text = some (.number, text.length)) :
    lexeme? c (text ++ ['.']) = some (.number, (text ++ ['.']).length) := by
  have sameHex : announcesHex c (text ++ ['.']) = announcesHex c text := by
    cases text <;> simp [announcesHex]
  rw [lexeme?_eq, Option.map_eq_some_iff] at h ⊢
  obtain ⟨kind, kinds, same⟩ := h
  obtain ⟨rfl, length⟩ := Prod.mk.inj same
  exact ⟨.number, kinds, by rw [sameHex, scanLength_concat length rfl]⟩

/-- A number that ends a text takes in the point behind it. -/
theorem Scans.concat_point {offset : Nat} {front : List Char} {tokens : List Token} {token : Token}
    (h : Scans offset front tokens) (mem : token ∈ tokens) (number : token.kind = .number)
    (atEnd : token.span.stop = offset + byteLength front) :
    ∃ tokens', Scans offset (front ++ ['.']) tokens' ∧ ∃ longer ∈ tokens', longer.kind = .number ∧
      longer.span.start < offset + byteLength front ∧
      offset + byteLength front < longer.span.stop := by
  induction h with
  | finish =>
      obtain rfl := List.mem_singleton.1 mem
      cases number
  | blank blank _ ih =>
      rw [byteLength_cons, ← Nat.add_assoc] at atEnd ⊢
      obtain ⟨tokens', scans, split⟩ := ih mem atEnd
      exact ⟨tokens', .blank blank scans, split⟩
  | @lexeme offset b more rest kind tokens visible found others ih =>
      rw [byteLength_append, ← Nat.add_assoc] at atEnd ⊢
      rcases List.mem_cons.1 mem with rfl | later
      · have ended : rest = [] := byteLength_eq_zero_iff.1 (Nat.left_eq_add.1 atEnd)
        subst ended
        cases number
        have taken : lexeme? b (more ++ ['.'] ++ []) = some (.number, (more ++ ['.']).length) := by
          rw [List.append_nil, lexeme?_number_point (lexeme?_append_iff.1 found).1]
        have scanned : Scans offset _ _ := .lexeme visible taken .finish
        rw [List.append_nil] at scanned ⊢
        have pos := b.utf8Size_pos
        have pointPos := Char.utf8Size_pos '.'
        refine ⟨_, scanned, _, List.mem_cons_self, rfl, ?_, ?_⟩
        · simp only [byteLength_cons, byteLength_nil]
          omega
        · simp only [byteLength_cons, byteLength_append, byteLength_nil]
          omega
      · obtain ⟨tokens', scans, longer, mem, split⟩ := ih later atEnd
        have found' : lexeme? b (more ++ (rest ++ ['.'])) = some (kind, more.length) := by
          refine lexeme?_of_head? found fun d first => ?_
          cases rest with
          | cons _ _ => exact first
          | nil =>
              -- Only `finish` is left, which is no number.
              cases others
              obtain rfl := List.mem_singleton.1 later
              cases number
        have scanned := Scans.lexeme visible found' scans
        rw [← List.append_assoc] at scanned
        exact ⟨_, scanned, longer, List.mem_cons_of_mem _ mem, split⟩

/-! ### Refused characters -/

/-- A byte offset is inside a number when that many bytes split a number token of some text that
    the formula begins with. -/
def InsideNumber (source : String) (p : Nat) : Prop :=
  ∃ front tokens, front <+: source.toList ∧ lex (String.ofList front) = .ok tokens ∧
    ∃ token ∈ tokens, token.kind = .number ∧ token.span.start < p ∧ p < token.span.stop

/-- The character at a byte offset is refused: what is before it has tokens, the offset is not
    inside a number, and the character is foreign. -/
def Refused (source : String) (p : Nat) (c : Char) : Prop :=
  ∃ front after, source.toList = front ++ c :: after ∧ byteLength front = p ∧
    (∃ tokens, lex (String.ofList front) = .ok tokens) ∧ ¬InsideNumber source p ∧ Foreign c

theorem lex_ofList_eq_ok_iff {front : List Char} {tokens : List Token} :
    lex (String.ofList front) = .ok tokens ↔ Scans 0 front tokens := by
  rw [lex, String.toList_ofList, scans_iff]

/-- No token reaches beyond the text. -/
theorem Scans.stop_le {offset : Nat} {cs : List Char} {tokens : List Token}
    (h : Scans offset cs tokens) :
    ∀ token ∈ tokens, token.span.stop ≤ offset + byteLength cs := by
  induction h with
  | finish =>
      intro token mem
      obtain rfl := List.mem_singleton.1 mem
      exact Nat.le_refl _
  | blank _ _ ih => rwa [byteLength_cons, ← Nat.add_assoc]
  | lexeme _ _ _ ih =>
      rw [byteLength_append, ← Nat.add_assoc]
      exact List.forall_mem_cons.2 ⟨Nat.le_add_right _ _, ih⟩

/-- The lexer reports the refused character, and no other. -/
theorem lex_eq_error_iff_refused {source : String} {err : Error} :
    lex source = .error err ↔
      ∃ p c, Refused source p c ∧ err = .unexpectedCharacter c ⟨p, p + c.utf8Size⟩ := by
  constructor
  · intro failed
    obtain ⟨front, c, after, tokens, whole, scans, foreign, ends, rfl⟩ :=
      exists_foreign_of_lexFrom_error failed
    rw [Nat.zero_add]
    refine ⟨_, c, ⟨front, after, whole, rfl, ⟨tokens, lex_ofList_eq_ok_iff.2 scans⟩, ?_, foreign⟩,
      rfl⟩
    rintro ⟨longer, tokens', isFront, lexed, token, mem, -, start, stop⟩
    have scans' := lex_ofList_eq_ok_iff.1 lexed
    obtain ⟨rest, same⟩ := isFront
    -- The number would have to end in a text that goes on beyond the foreign character.
    rcases List.append_eq_append_iff.1 (same.trans whole) with ⟨gap, rfl, -⟩ | ⟨gap, rfl, split⟩
    · have within := scans'.stop_le token mem
      rw [byteLength_append] at stop
      omega
    · cases gap with
      | nil =>
          have within := scans'.stop_le token mem
          rw [List.append_nil] at within
          omega
      | cons d gap =>
          obtain ⟨rfl, -⟩ := List.cons.inj split
          have failed' := scans.lexFrom_foreign foreign ends gap
          rw [scans'.lexFrom_eq] at failed'
          cases failed'
  · rintro ⟨p, c, ⟨front, after, whole, rfl, ⟨tokens, lexed⟩, outside, foreign⟩, rfl⟩
    have scans := lex_ofList_eq_ok_iff.1 lexed
    have failed := scans.lexFrom_foreign foreign ?_ after
    · rw [lex, whole, failed, Nat.zero_add]
    · rintro token mem number atEnd rfl
      obtain ⟨tokens', scans', longer, mem', number', split⟩ := scans.concat_point mem number atEnd
      rw [Nat.zero_add] at split
      refine outside ⟨front ++ ['.'], tokens', ⟨after, ?_⟩, lex_ofList_eq_ok_iff.2 scans', longer,
        mem', number', split⟩
      rw [whole, List.append_assoc]
      rfl

/-- The lexer succeeds with the tokens that make up the text and one `finish` behind it, or fails at
    the first character that is refused. -/
theorem lex_outcome (source : String) :
    (∀ tokens, lex source = .ok tokens → ∃ body,
      tokens = body ++ [⟨.finish, .point (byteLength source.toList), ""⟩] ∧
      (∀ token ∈ body, token.kind ≠ .finish) ∧ Tokenizes source body) ∧
    (∀ err, lex source = .error err ↔ ∃ p c, Refused source p c ∧
      (∀ q d, Refused source q d → p ≤ q) ∧
      err = .unexpectedCharacter c ⟨p, p + c.utf8Size⟩) := by
  constructor
  · intro tokens lexed
    have scans : Scans 0 source.toList tokens := scans_iff.2 lexed
    obtain ⟨body, rfl, kinds⟩ := scans.ends
    rw [Nat.zero_add] at scans ⊢
    exact ⟨body, rfl, kinds, scans.tokenizes kinds⟩
  · intro err
    rw [lex_eq_error_iff_refused]
    constructor
    · rintro ⟨p, c, refused, rfl⟩
      refine ⟨p, c, refused, fun q d other => ?_, rfl⟩
      have first := lex_eq_error_iff_refused.2 ⟨p, c, refused, rfl⟩
      rw [lex_eq_error_iff_refused.2 ⟨q, d, other, rfl⟩] at first
      injection first with same
      injection same with _ span
      exact Nat.le_of_eq (congrArg Span.start span).symm
    · rintro ⟨p, c, refused, -, rfl⟩
      exact ⟨p, c, refused, rfl⟩

/-- A number takes in the point behind it, a name does not. -/
theorem lex_outcome_point :
    (lex "7.m" = .ok [⟨.number, ⟨0, 3⟩, "7.m"⟩, ⟨.finish, .point 3, ""⟩] ∧
      Tokenizes "7.m" [⟨.number, ⟨0, 3⟩, "7.m"⟩]) ∧
    (lex "m.7" = .error (.unexpectedCharacter '.' ⟨1, 2⟩) ∧ Refused "m.7" 1 '.') := by
  have lexed : lex "7.m" = .ok [⟨.number, ⟨0, 3⟩, "7.m"⟩, ⟨.finish, .point 3, ""⟩] := by
    decide +kernel
  have failed : lex "m.7" = .error (.unexpectedCharacter '.' ⟨1, 2⟩) := by decide +kernel
  obtain ⟨body, whole, -, tokenizes⟩ := (lex_outcome "7.m").1 _ lexed
  obtain rfl : [⟨.number, ⟨0, 3⟩, "7.m"⟩] = body := by
    simpa using congrArg List.dropLast whole
  obtain ⟨p, c, refused, -, same⟩ := ((lex_outcome "m.7").2 _).1 failed
  injection same with char span
  obtain rfl := char
  obtain rfl : 1 = p := congrArg Span.start span
  exact ⟨⟨lexed, tokenizes⟩, failed, refused⟩

end Formula.Token

end Metrology
