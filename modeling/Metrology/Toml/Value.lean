/-
Module: Metrology.Toml.Value
Layer: Documents
Purpose: TOML values, and how headers and dotted keys build tables. A table knows what brought it
  into being, because that decides what may still be added: one with a header of its own is closed
  to dotted keys from outside, one written inline is closed for good.
Imports: Metrology.Json.Value
Main exports: Toml, TableForm, Toml.insertDotted, Toml.openTable, Toml.appendTable, Toml.modifyAt,
  Toml.toJson
-/
import Metrology.Json.Value

namespace Metrology

/-- What brought a table into being. -/
inductive TableForm where
  /-- A header of its own -/
  | header
  /-- A header below it -/
  | implied
  /-- A dotted key -/
  | dotted
  /-- Braces -/
  | inline
deriving DecidableEq, Repr, Inhabited

/-- A TOML value. -/
inductive Toml where
  | string (s : String)
  | integer (n : Int)
  | float (x : Double)
  | boolean (b : Bool)
  | datetime (text : String)
  | array (items : List Toml)
  | table (form : TableForm) (members : List (String × Toml))
  /-- The tables of one repeated header, first one first -/
  | tables (elements : List (List (String × Toml)))
deriving Inhabited

namespace Toml

/-- The members of a table in the order of their first mention. -/
abbrev Members := List (String × Toml)

/-- Changes the member of a name, or adds one; the change may be refused. -/
def alter (key : String) (change : Option Toml → Option Toml) : Members → Option Members
  | [] => (change none).map fun value => [(key, value)]
  | (name, old) :: rest =>
    if name = key then (change (some old)).map fun value => (name, value) :: rest
    else (alter key change rest).map fun rest => (name, old) :: rest

/-- Changes the last of a list of tables. -/
def alterLast (change : Members → Option Members) : List Members → Option (List Members)
  | [] => none
  | [last] => (change last).map fun last => [last]
  | first :: rest => (alterLast change rest).map fun rest => first :: rest

/-- Adds a member under a dotted key. Tables on the way are made, or were made by dotted keys or
    implied by headers; the last one has to be one that dotted keys made. -/
def insertDotted (path : List String) (key : String) (value : Toml) (members : Members) :
    Option Members :=
  match path with
  | [] => alter key (fun old => if old.isSome then none else some value) members
  | step :: deeper =>
    alter step (fun old => match old with
      | none => (insertDotted deeper key value []).map (table .dotted)
      | some (table form inner) =>
        if form = .header ∨ form = .inline then none
        else if deeper.isEmpty && form != .dotted then none
        else (insertDotted deeper key value inner).map (table form)
      | some (tables elements) =>
        if deeper.isEmpty then none
        else (alterLast (insertDotted deeper key value) elements).map tables
      | some _ => none) members

/-- Passes through a member on the way to a header's last key; what is missing is implied. -/
def descend (inside : Members → Option Members) : Option Toml → Option Toml
  | none => (inside []).map (table .implied)
  | some (table .inline _) => none
  | some (table form inner) => (inside inner).map (table form)
  | some (tables elements) => (alterLast inside elements).map tables
  | some _ => none

/-- Opens the table of a header. It may be new, or implied by an earlier header below it. -/
def openTable : List String → Members → Option Members
  | [], _ => none
  | [key], members => alter key (fun old => match old with
      | none => some (table .header [])
      | some (table .implied inner) => some (table .header inner)
      | some _ => none) members
  | step :: deeper, members => alter step (descend (openTable deeper)) members

/-- Opens one more table of a repeated header. -/
def appendTable : List String → Members → Option Members
  | [], _ => none
  | [key], members => alter key (fun old => match old with
      | none => some (tables [[]])
      | some (tables elements) => some (tables (elements ++ [[]]))
      | some _ => none) members
  | step :: deeper, members => alter step (descend (appendTable deeper)) members

/-- Changes the table that the last header opened. -/
def modifyAt (change : Members → Option Members) : List String → Members → Option Members
  | [], members => change members
  | step :: deeper, members => alter step (descend (modifyAt change deeper)) members

mutual

/-- The same data as a JSON value; a date or time is an object that holds its text. -/
def toJson : Toml → Json
  | string s => .string s
  | integer n => .integer n
  | float x => .real x
  | boolean b => .bool b
  | datetime text => .object [("datetime", .string text)]
  | array items => .array (itemsToJson items)
  | table _ members => .object (membersToJson members)
  | tables elements => .array (elementsToJson elements)

def itemsToJson : List Toml → List Json
  | [] => []
  | item :: rest => item.toJson :: itemsToJson rest

def membersToJson : List (String × Toml) → List (String × Json)
  | [] => []
  | (name, value) :: rest => (name, value.toJson) :: membersToJson rest

def elementsToJson : List (List (String × Toml)) → List Json
  | [] => []
  | members :: rest => .object (membersToJson members) :: elementsToJson rest

end

end Toml

end Metrology
