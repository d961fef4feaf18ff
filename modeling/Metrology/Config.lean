/-
Module: Metrology.Config
Layer: Configuration
Purpose: Configurations: units defined by formulas, in order, and the number of significant digits
  to print. A configuration is read from a TOML or JSON file, found as the nearest one above a
  place, and turned into the symbol table in which each formula may use the units before it.
Imports: Metrology.Evaluator, Metrology.Json.Reader, Metrology.Json.Record, Metrology.Toml.Reader,
  Metrology.FileTree
Main exports: UnitDefinition, Config, ConfigError, Config.symbolTable, Config.ofFile, Config.find?,
  isValidUnitName
-/
import Metrology.Evaluator
import Metrology.Json.Reader
import Metrology.Json.Record
import Metrology.Toml.Reader
import Metrology.FileTree

namespace Metrology

/-- A name for the unit that a formula denotes. -/
structure UnitDefinition where
  name : String
  formula : String
deriving DecidableEq, Repr, Inhabited

/-- Units to define in order, and how many significant digits to print. -/
structure Config where
  units : List UnitDefinition
  precision : Nat
deriving DecidableEq, Repr, Inhabited

/-- Why there is no configuration, or no table for it. -/
inductive ConfigError where
  | unreadable (path : String)
  | unparsable (path : String)
  | unknownFormat (path : String)
  | invalidName (name : String)
  | definition (name : String) (source : Formula.Error)
deriving DecidableEq

/-- The report of a configuration error; the error of a formula is reported beside it. -/
def ConfigError.diagnostic : ConfigError → Diagnostic
  | unreadable path => ⟨"U0201", String.join ["cannot read `", path, "`"], none, []⟩
  | unparsable path => ⟨"U0202", String.join ["cannot parse `", path, "`"], none, []⟩
  | unknownFormat path =>
    ⟨"U0203", String.join ["unknown config file format `", path, "`"],
      some "use a `.toml` or `.json` file", []⟩
  | invalidName name =>
    ⟨"U0204", String.join ["`", name, "` is not a valid unit name"],
      some (String.join ["unit names consist of ASCII letters and underscores so formulas can ",
        "refer to them"]), []⟩
  | definition name _ => ⟨"U0205", String.join ["cannot define unit `", name, "`"], none, []⟩

/-- Unit names are what formulas read as one name. -/
def isValidUnitName (name : String) : Bool :=
  !name.toList.isEmpty && name.toList.all Formula.Token.isNameChar

namespace UnitDefinition

def toJson (d : UnitDefinition) : Json :=
  .object [("name", .string d.name), ("formula", .string d.formula)]

/-- The fields of a definition; what goes beyond them in an object is ignored. -/
def shape (otherItems : Bool) : Json.RecordShape := ⟨["name", "formula"], true, otherItems⟩

def ofJson? (otherItems : Bool) (value : Json) : Option UnitDefinition :=
  match value.fields? (shape otherItems) with
  | some [some name, some formula] => do return ⟨← name.text?, ← formula.text?⟩
  | _ => none

end UnitDefinition

namespace Config

/-- Significant digits to print unless a configuration says otherwise. -/
def defaultPrecision : Nat := 10

def default : Config := ⟨[], defaultPrecision⟩

def toJson (config : Config) : Json :=
  .object [("unit", .array (config.units.map UnitDefinition.toJson)),
    ("precision", .integer config.precision)]

/-- The fields of a configuration, which takes no others. -/
def shape (otherItems : Bool) : Json.RecordShape := ⟨["unit", "precision"], false, otherItems⟩

/-- The list of definitions, empty if it is not given. -/
def unitsField? (otherItems : Bool) : Option Json → Option (List UnitDefinition)
  | none => some []
  | some (.array items) => items.mapM (UnitDefinition.ofJson? otherItems)
  | some _ => none

/-- The precision, the default one if it is not given. -/
def precisionField? : Option Json → Option Nat
  | none => some defaultPrecision
  | some value => value.size?

/-- A configuration as data. Arrays that stand for records may be allowed more items than fields. -/
def ofJson? (otherItems : Bool) (value : Json) : Option Config :=
  match value.fields? (shape otherItems) with
  | some [units, precision] => do
    return ⟨← unitsField? otherItems units, ← precisionField? precision⟩
  | _ => none

/-! ### Files -/

/-- The formats of configuration files. -/
inductive Format where
  | toml
  | json
deriving DecidableEq, Repr, Inhabited

/-- What follows the last point of a file's name, unless the name begins with it. -/
def extension? (name : String) : Option String :=
  let reversed := name.toList.reverse
  let ending := reversed.takeWhile (· != '.')
  match reversed.dropWhile (· != '.') with
  | _ :: stem => if stem.isEmpty then none else some (String.ofList ending.reverse)
  | [] => none

/-- The format that a file's name announces; case matters. -/
def formatOf? (name : String) : Option Format :=
  match extension? name with
  | some "toml" => some .toml
  | some "json" => some .json
  | _ => none

/-- The configuration in the text of a file. -/
def parse? (format : Format) (text : String) : Option Config :=
  match format with
  | .toml => (Toml.read? text).bind fun members =>
    ofJson? true (.object (Toml.membersToJson members))
  | .json => (Json.read? text).bind (ofJson? false)

/-- The configuration in the file at a path, taken from a directory. -/
def ofFile (tree : FileTree) (directory : Path) (path : String) : Except ConfigError Config :=
  match tree.read? directory path with
  | none => .error (.unreadable path)
  | some text =>
    match formatOf? ((FileTree.names path).getLastD "") with
    | none => .error (.unknownFormat path)
    | some format =>
      match parse? format text with
      | none => .error (.unparsable path)
      | some config => .ok config

/-- The names of configuration files, the first choice first. -/
def fileNames : List String := ["quantis.toml", ".quantis.toml", "quantis.json"]

/-- The first choice among the configuration files of one directory. -/
def findIn? (tree : FileTree) (directory : WrittenPath) : Option WrittenPath :=
  (fileNames.map directory.child).find? fun path => tree.isFile path.names

/-- The first choice in the nearest of a directory and the directories above it. -/
def findAbove? (tree : FileTree) (directory : WrittenPath) : Option WrittenPath :=
  match findIn? tree directory with
  | some path => some path
  | none =>
    if directory.steps.isEmpty then none else findAbove? tree directory.parent
termination_by directory.steps.length
decreasing_by exact WrittenPath.length_parent_lt ‹_›

/-- The configuration file nearest to a path from the root, which may lead to a file, to a directory
    or nowhere. What is found is written as the path was. -/
def find? (tree : FileTree) (start : WrittenPath) : Option WrittenPath :=
  let isFile := start.rest.isEmpty && tree.isFile start.names
  let directory := if isFile then start.parent else start
  findAbove? tree directory

/-! ### Symbol tables -/

/-- Defines one unit over the table of those before it. -/
def defineUnit (table : SymbolTable) (d : UnitDefinition) :
    Except (Failure ConfigError) SymbolTable :=
  if !isValidUnitName d.name then .error (.error (.invalidName d.name))
  else match (Evaluator.ofTable table).evaluate d.formula with
    | .ok unit => .ok (table.define d.name unit)
    | .error (.error e) => .error (.error (.definition d.name e))
    | .error (.fault f) => .error (.fault f)

/-- The predefined units and those of the configuration, defined in order. -/
def symbolTable (config : Config) : Except (Failure ConfigError) SymbolTable :=
  config.units.foldlM defineUnit .defaults

end Config

end Metrology
