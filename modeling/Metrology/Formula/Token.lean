/-
Module: Metrology.Formula.Token
Layer: Formulas
Purpose: The tokens of a formula. Blanks separate tokens; a name is a longest run of ASCII letters
  and underscores; a number takes in everything that could belong to a literal, so that a malformed
  one arrives whole at its diagnosis; every other token is one operator character.
Imports: Metrology.Formula.Error
Main exports: TokenKind, Token, Token.lexFrom, Token.lex
-/
import Metrology.Formula.Error

namespace Metrology.Formula

/-- The kinds of token; `finish` stands once, at the end. -/
inductive TokenKind where
  | name
  | number
  | plus
  | minus
  | star
  | slash
  | caret
  | leftParen
  | rightParen
  | finish
deriving DecidableEq, Repr, Inhabited

def TokenKind.describe : TokenKind → String
  | name => "identifier"
  | number => "number"
  | plus => "`+`"
  | minus => "`-`"
  | star => "`*`"
  | slash => "`/`"
  | caret => "`^`"
  | leftParen => "`(`"
  | rightParen => "`)`"
  | finish => "end of formula"

/-- A token with its place and its text. -/
structure Token where
  kind : TokenKind
  span : Span
  text : String
deriving DecidableEq, Repr, Inhabited

namespace Token

/-! ### Character classes -/

/-- Space, tab, carriage return, line feed and form feed. -/
def isBlank (c : Char) : Bool :=
  c == ' ' || c == '\t' || c == '\r' || c == '\n' || c == '\x0c'

/-- An ASCII letter. -/
def isLetter (c : Char) : Bool := ('a' ≤ c && c ≤ 'z') || ('A' ≤ c && c ≤ 'Z')

/-- An ASCII digit. -/
def isDigit (c : Char) : Bool := '0' ≤ c && c ≤ '9'

/-- Names consist of ASCII letters and underscores. -/
def isNameChar (c : Char) : Bool := isLetter c || c == '_'

/-- What may stand anywhere in a number token. -/
def isNumberChar (c : Char) : Bool := isLetter c || isDigit c || c == '_' || c == '.'

def isSign (c : Char) : Bool := c == '+' || c == '-'

/-- The marks after which a number token takes in a sign. -/
def isMark (hex : Bool) (c : Char) : Bool :=
  if hex then c == 'p' || c == 'P' else c == 'e' || c == 'E'

/-- The kind of a token that is one operator character. -/
def operatorKind? : Char → Option TokenKind
  | '+' => some .plus
  | '-' => some .minus
  | '*' => some .star
  | '/' => some .slash
  | '^' => some .caret
  | '(' => some .leftParen
  | ')' => some .rightParen
  | _ => none

/-! ### Lexemes -/

/-- How many of the characters go on with a number token whose last character is `last`. -/
def numberLength (hex : Bool) (last : Char) : List Char → Nat
  | [] => 0
  | c :: cs =>
    if isNumberChar c || (isSign c && isMark hex last) then numberLength hex c cs + 1 else 0

/-- A leading `0x` makes a number token hexadecimal. -/
def announcesHex (first : Char) (rest : List Char) : Bool :=
  first == '0' && rest.head? == some 'x'

/-- The kind of the token that begins with `first`, and how many further characters it has. -/
def lexeme? (first : Char) (rest : List Char) : Option (TokenKind × Nat) :=
  if isNameChar first then some (.name, (rest.takeWhile isNameChar).length)
  else if isDigit first then
    some (.number, numberLength (announcesHex first rest) first rest)
  else (operatorKind? first).map fun kind => (kind, 0)

/-- The tokens of the characters that stand at a byte offset, ending with `finish`. -/
def lexFrom (offset : Nat) (cs : List Char) : Except Error (List Token) :=
  match cs with
  | [] => .ok [⟨.finish, .point offset, ""⟩]
  | c :: rest =>
    if isBlank c then lexFrom (offset + c.utf8Size) rest
    else match lexeme? c rest with
      | none => .error (.unexpectedCharacter c ⟨offset, offset + c.utf8Size⟩)
      | some (kind, more) =>
        let text := c :: rest.take more
        let stop := offset + byteLength text
        match lexFrom stop (rest.drop more) with
        | .ok tokens => .ok (⟨kind, ⟨offset, stop⟩, String.ofList text⟩ :: tokens)
        | .error e => .error e
termination_by cs.length
decreasing_by
  · simp
  · simp only [List.length_drop, List.length_cons]; omega

/-- The tokens of a formula, ending with `finish`. -/
def lex (source : String) : Except Error (List Token) := lexFrom 0 source.toList

example : ((lex "2 ^ -m").toOption.map fun tokens => tokens.map (·.kind)) =
    some [.number, .caret, .minus, .name, .finish] := by
  decide +kernel

end Token

end Metrology.Formula
