/-
Module: Metrology.Json.Record
Layer: Documents
Purpose: Records as JSON. A record is an object with a member for each field, or an array with the
  fields in their order, of which the last ones may be left off if they have defaults. A field may
  not be given twice; what happens to members and items beyond the fields is the record's choice.
Imports: Metrology.Json.Value
Main exports: Json.RecordShape, Json.fields?, Json.sortMembers
-/
import Metrology.Json.Value

namespace Metrology.Json

/-- The fields of a record, and whether it takes members and items that are none of them. -/
structure RecordShape where
  fields : List String
  otherMembers : Bool
  otherItems : Bool

/-- The values of the fields in their order; a field that is not given has none. -/
def fields? (shape : RecordShape) : Json → Option (List (Option Json))
  | object members =>
    let known := members.filter fun member => shape.fields.contains member.1
    if !shape.otherMembers && known.length != members.length then none
    else if shape.fields.any fun field => 1 < known.countP fun member => member.1 == field then none
    else some (shape.fields.map fun field => memberIn? field known)
  | array items =>
    if !shape.otherItems && shape.fields.length < items.length then none
    else some ((List.range shape.fields.length).map fun i => items[i]?)
  | _ => none

/-- An integer in a range. -/
def intBetween? (low high : Int) : Json → Option Int
  | integer n => if low ≤ n ∧ n ≤ high then some n else none
  | _ => none

/-- Counts and offsets fit 64 bits. -/
def size? (value : Json) : Option Nat := (intBetween? 0 (2 ^ 64 - 1) value).map Int.toNat

def text? : Json → Option String
  | string s => some s
  | _ => none

/-! ### Sorted members -/

/-- Puts a member before the first one with a greater name. -/
def insertMember (member : String × Json) : List (String × Json) → List (String × Json)
  | [] => [member]
  | other :: rest =>
    if member.1 < other.1 then member :: other :: rest else other :: insertMember member rest

mutual

/-- The same value with the members of every object in ascending order of names. -/
def sortMembers : Json → Json
  | array items => array (sortItems items)
  | object members => object (sortIn members)
  | other => other

def sortItems : List Json → List Json
  | [] => []
  | item :: rest => item.sortMembers :: sortItems rest

def sortIn : List (String × Json) → List (String × Json)
  | [] => []
  | (name, value) :: rest => insertMember (name, value.sortMembers) (sortIn rest)

end

end Metrology.Json
