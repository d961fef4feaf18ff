/-
Module: Metrology.SymbolTable
Layer: Units
Purpose: Tables from names to units. A table is a list of entries that `define` keeps in ascending
  order of names; the last definition of a name is the one that counts. A name that is not in the
  table may still be a metric prefix before a name that is.
Imports: Metrology.Catalog
Main exports: SymbolTable, define, insert, lookup?, contains, extend, ofList, defaults,
  Resolution, resolve?
-/
import Metrology.Catalog

namespace Metrology

/-- Names with their units. -/
structure SymbolTable where
  entries : List (String × MeasureUnit)
deriving DecidableEq, Inhabited

namespace SymbolTable

def empty : SymbolTable := ⟨[]⟩

/-- The unit of the first entry with a name. -/
def lookupIn (name : String) : List (String × MeasureUnit) → Option MeasureUnit
  | [] => none
  | (key, unit) :: rest => if key = name then some unit else lookupIn name rest

/-- Puts an entry before the first greater name, in place of one with the same name. -/
def insertIn (name : String) (unit : MeasureUnit) :
    List (String × MeasureUnit) → List (String × MeasureUnit)
  | [] => [(name, unit)]
  | (key, old) :: rest =>
    if key = name then (name, unit) :: rest
    else if name < key then (name, unit) :: (key, old) :: rest
    else (key, old) :: insertIn name unit rest

/-- The unit that an entry takes the place of when it is put in. -/
def replacedIn (name : String) : List (String × MeasureUnit) → Option MeasureUnit
  | [] => none
  | (key, old) :: rest =>
    if key = name then some old else if name < key then none else replacedIn name rest

/-- The unit bound to a name. -/
def lookup? (table : SymbolTable) (name : String) : Option MeasureUnit :=
  lookupIn name table.entries

def contains (table : SymbolTable) (name : String) : Bool := (table.lookup? name).isSome

/-- Binds a name. -/
def define (table : SymbolTable) (name : String) (unit : MeasureUnit) : SymbolTable :=
  ⟨insertIn name unit table.entries⟩

/-- Binds a name and hands back the unit that it was bound to before. -/
def insert (table : SymbolTable) (name : String) (unit : MeasureUnit) :
    Option MeasureUnit × SymbolTable :=
  (replacedIn name table.entries, table.define name unit)

/-- Binds names one after the other. -/
def extend (table : SymbolTable) (pairs : List (String × MeasureUnit)) : SymbolTable :=
  pairs.foldl (fun table pair => table.define pair.1 pair.2) table

/-- The table of a list of bindings; the last one of a name counts. -/
def ofList (pairs : List (String × MeasureUnit)) : SymbolTable := empty.extend pairs

/-- How many names are bound. -/
def size (table : SymbolTable) : Nat := table.entries.length

def isEmpty (table : SymbolTable) : Bool := table.entries.isEmpty

/-- Both names of a predefined unit. -/
def bindings (u : CatalogUnit) : List (String × MeasureUnit) :=
  [(u.symbol, u.unit), (u.name, u.unit)]

/-- Every predefined unit under its symbol and its long name. -/
def defaults : SymbolTable := ofList (CatalogUnit.all.flatMap bindings)

/-! ### Laws of insertion and look-up -/

theorem lookupIn_insertIn (name : String) (unit : MeasureUnit) (other : String)
    (entries : List (String × MeasureUnit)) :
    lookupIn other (insertIn name unit entries) =
      if name = other then some unit else lookupIn other entries := by
  induction entries with
  | nil => simp [insertIn, lookupIn]
  | cons entry rest ih =>
    obtain ⟨key, old⟩ := entry
    by_cases same : key = name
    · subst same
      by_cases here : key = other <;> simp [insertIn, lookupIn, here]
    · by_cases before : name < key
      · simp [insertIn, lookupIn, same, before]
      · by_cases here : name = other
        · subst here
          simp [insertIn, lookupIn, same, before, ih]
        · simp [insertIn, lookupIn, same, before, here, ih]

/-- Putting an entry in adds no other one. -/
theorem mem_insertIn {name : String} {unit : MeasureUnit} {entry : String × MeasureUnit}
    {entries : List (String × MeasureUnit)} (h : entry ∈ insertIn name unit entries) :
    entry = (name, unit) ∨ entry ∈ entries := by
  induction entries with
  | nil => exact .inl (List.mem_singleton.1 h)
  | cons first rest ih =>
    unfold insertIn at h
    split at h
    · exact (List.mem_cons.1 h).imp_right (List.mem_cons_of_mem _)
    · split at h
      · exact List.mem_cons.1 h
      · rcases List.mem_cons.1 h with rfl | later
        · exact .inr List.mem_cons_self
        · exact (ih later).imp_right (List.mem_cons_of_mem _)

@[simp] theorem lookup?_define (table : SymbolTable) (name : String) (unit : MeasureUnit)
    (other : String) :
    (table.define name unit).lookup? other =
      if name = other then some unit else table.lookup? other :=
  lookupIn_insertIn name unit other table.entries

@[simp] theorem lookup?_empty (name : String) : empty.lookup? name = none := rfl

end SymbolTable

/-- What a name stands for: a bound unit, or a metric prefix before one. -/
inductive Resolution where
  | exact (unit : MeasureUnit)
  | prefixed (metricPrefix : MetricPrefix) (base : MeasureUnit)
deriving DecidableEq

/-- The unit that a resolution denotes. -/
def Resolution.unit : Resolution → Except Fault MeasureUnit
  | exact unit => .ok unit
  | prefixed metricPrefix base => base.applyPrefix metricPrefix

/-- A name in a look-up function: the name as it stands, or else a prefix before the rest of it. -/
def Resolution.find? (lookup? : String → Option MeasureUnit) (name : String) : Option Resolution :=
  match lookup? name with
  | some unit => some (.exact unit)
  | none =>
    match MetricPrefix.split? name.toList with
    | some (metricPrefix, rest) =>
      (lookup? (String.ofList rest)).map fun base => .prefixed metricPrefix base
    | none => none

/-- A name in a table. -/
def SymbolTable.resolve? (table : SymbolTable) (name : String) : Option Resolution :=
  Resolution.find? table.lookup? name

end Metrology
