/-
Module: Metrology.Encoding
Layer: Documents
Purpose: Dimensions, metric prefixes, spans, units and catalogue entries as JSON, and the first
  three read back. A prefix is its name, or an object with that one name and the value `null`.
Imports: Metrology.Json.Record, Metrology.Catalog, Metrology.Span
Main exports: Dimension.toJson, Dimension.ofJson?, MetricPrefix.toJson, MetricPrefix.ofJson?,
  Span.toJson, Span.ofJson?, MeasureUnit.toJson, CatalogUnit.toJson
-/
import Metrology.Json.Record
import Metrology.Catalog
import Metrology.Span

namespace Metrology

namespace Dimension

def toJson (d : Dimension) : Json :=
  .object [("length", .integer d.length.val), ("time", .integer d.time.val),
    ("mass", .integer d.mass.val), ("current", .integer d.current.val),
    ("temperature", .integer d.temperature.val)]

/-- The fields of a dimension; what goes beyond them in an object is ignored. -/
def shape : Json.RecordShape := ⟨["length", "time", "mass", "current", "temperature"], true, false⟩

/-- The exponent in a field that has to be given. -/
def exponentField? (field : Option Json) : Option Exponent :=
  match field with
  | some (.integer n) => Exponent.ofInt? n
  | _ => none

def ofJson? (value : Json) : Option Dimension :=
  match value.fields? shape with
  | some [length, time, mass, current, temperature] => do
    return ⟨← exponentField? length, ← exponentField? time, ← exponentField? mass,
      ← exponentField? current, ← exponentField? temperature⟩
  | _ => none

end Dimension

namespace MetricPrefix

def toJson (p : MetricPrefix) : Json := .string p.name

def ofJson? : Json → Option MetricPrefix
  | .string name => ofName? name
  | .object [(name, .null)] => ofName? name
  | _ => none

@[simp] theorem ofJson?_toJson (p : MetricPrefix) : ofJson? p.toJson = some p := by
  cases p <;> decide

end MetricPrefix

namespace Span

def toJson (s : Span) : Json :=
  .object [("start", .integer s.start), ("end", .integer s.stop)]

def shape : Json.RecordShape := ⟨["start", "end"], true, false⟩

def ofJson? (value : Json) : Option Span :=
  match value.fields? shape with
  | some [some start, some stop] => do return ⟨← start.size?, ← stop.size?⟩
  | _ => none

end Span

def MeasureUnit.toJson (u : MeasureUnit) : Json :=
  .object [("dimension", u.dimension.toJson), ("factor", .real u.factor)]

/-- A catalogue entry with its symbol, its long name and its unit. -/
def CatalogUnit.toJson (u : CatalogUnit) : Json :=
  .object [("symbol", .string u.symbol), ("name", .string u.name), ("def", u.unit.toJson)]

end Metrology
