/-
Module: Metrology.Json.Value
Layer: Documents
Purpose: JSON values and their written forms, compact and indented. Integers and other numbers are
  told apart, members keep their order, and a number that is not finite is written as `null`.
Imports: Metrology.Decimal.Layout
Main exports: Json, Json.compact, Json.pretty, Json.member?
-/
import Metrology.Decimal.Layout

namespace Metrology

/-- A JSON value. -/
inductive Json where
  | null
  | bool (b : Bool)
  | integer (n : Int)
  | real (x : Double)
  | string (s : String)
  | array (items : List Json)
  | object (members : List (String × Json))
  /-- A string, or an object with a name, in which a surrogate has no partner: it is JSON, but it
      has no text. It is written as `null`. -/
  | garbled
deriving Inhabited

namespace Json

/-- The first member of a name. -/
def memberIn? (name : String) : List (String × Json) → Option Json
  | [] => none
  | (key, value) :: rest => if key = name then some value else memberIn? name rest

/-- A member of an object. -/
def member? (name : String) : Json → Option Json
  | object members => memberIn? name members
  | _ => none

/-! ### Texts -/

/-- A hexadecimal digit in lower case. -/
def hexDigit (n : Nat) : Char := (Nat.toDigits 16 (n % 16)).headD '0'

/-- A character inside a string: quotes, backslashes and control characters are escaped. -/
def escape (c : Char) : List Char :=
  if c = '"' then ['\\', '"']
  else if c = '\\' then ['\\', '\\']
  else if c = '\x08' then ['\\', 'b']
  else if c = '\x0c' then ['\\', 'f']
  else if c = '\n' then ['\\', 'n']
  else if c = '\r' then ['\\', 'r']
  else if c = '\t' then ['\\', 't']
  else if c.toNat < 32 then ['\\', 'u', '0', '0', hexDigit (c.toNat / 16), hexDigit c.toNat]
  else [c]

def stringText (s : String) : List Char := '"' :: s.toList.flatMap escape ++ ['"']

def intText (n : Int) : List Char :=
  (if n < 0 then ['-'] else []) ++ Nat.toDigits 10 n.natAbs

def realText (x : Double) : List Char :=
  if x.isFinite then (Layout.json.write x).toList else "null".toList

def boolText (b : Bool) : List Char := if b then "true".toList else "false".toList

/-- Two blanks for each level. -/
def indent (level : Nat) : List Char := '\n' :: List.replicate (2 * level) ' '

mutual

/-- Without blanks. -/
def compactChars : Json → List Char
  | null | garbled => "null".toList
  | bool b => boolText b
  | integer n => intText n
  | real x => realText x
  | string s => stringText s
  | array items => '[' :: compactItems items ++ [']']
  | object members => '\x7b' :: compactMembers members ++ ['\x7d']

def compactItems : List Json → List Char
  | [] => []
  | [item] => item.compactChars
  | item :: rest => item.compactChars ++ ',' :: compactItems rest

def compactMembers : List (String × Json) → List Char
  | [] => []
  | [(name, value)] => stringText name ++ ':' :: value.compactChars
  | (name, value) :: rest =>
    stringText name ++ ':' :: value.compactChars ++ ',' :: compactMembers rest

end

mutual

/-- One item or member a line; empty arrays and objects stay together. -/
def prettyChars (level : Nat) : Json → List Char
  | null | garbled => "null".toList
  | bool b => boolText b
  | integer n => intText n
  | real x => realText x
  | string s => stringText s
  | array [] => ['[', ']']
  | array (item :: rest) => '[' :: prettyItems (level + 1) (item :: rest) ++ indent level ++ [']']
  | object [] => ['\x7b', '\x7d']
  | object (member :: rest) =>
    '\x7b' :: prettyMembers (level + 1) (member :: rest) ++ indent level ++ ['\x7d']

def prettyItems (level : Nat) : List Json → List Char
  | [] => []
  | [item] => indent level ++ item.prettyChars level
  | item :: rest => indent level ++ item.prettyChars level ++ ',' :: prettyItems level rest

def prettyMembers (level : Nat) : List (String × Json) → List Char
  | [] => []
  | [(name, value)] => indent level ++ stringText name ++ ':' :: ' ' :: value.prettyChars level
  | (name, value) :: rest =>
    indent level ++ stringText name ++ ':' :: ' ' :: value.prettyChars level ++
      ',' :: prettyMembers level rest

end

def compact (value : Json) : String := String.ofList value.compactChars

def pretty (value : Json) : String := String.ofList (value.prettyChars 0)

example : (object [("a", array [integer (-1), null]), ("b", string "x\n")]).compact =
    "\x7b\"a\":[-1,null],\"b\":\"x\\n\"\x7d" := by decide +kernel

end Json

end Metrology
