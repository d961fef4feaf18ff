/-
Module: Metrology.CommandLine.Run
Layer: Command line
Purpose: Running the command line over a file system as data. A run ends with an exit status, the
  text for the standard output, and a complaint if something went wrong: 1 for a diagnosed error, 2
  for arguments that make no command, 101 for a breach of contract.
Imports: Metrology.CommandLine.Help, Metrology.Decimal.Significant, Metrology.Encoding,
  Metrology.Quantity
Main exports: Complaint, Report, run
-/
import Metrology.CommandLine.Help
import Metrology.Decimal.Significant
import Metrology.Encoding
import Metrology.Quantity

namespace Metrology.CommandLine

/-- What went wrong in a run. -/
inductive Complaint where
  | usage (e : UsageError)
  | diagnosed (d : Diagnostic)
  | fault (f : Fault)
  /-- A precision beyond what a formatter takes -/
  | precision
deriving DecidableEq

namespace Complaint

def status : Complaint → Nat
  | usage _ => 2
  | diagnosed _ => 1
  | fault _ => 101
  | precision => 101

def message : Complaint → String
  | usage e => e.message
  | diagnosed d => d.message
  | fault f => f.message
  | precision => "Formatting argument out of range"

/-- The code of a diagnosed error. -/
def code? : Complaint → Option String
  | diagnosed d => some d.code
  | _ => none

end Complaint

/-- What a run prints, and why it stopped short, if it did. -/
structure Report where
  output : String
  complaint? : Option Complaint
deriving DecidableEq

namespace Report

def status (r : Report) : Nat := (r.complaint?.map Complaint.status).getD 0

def success (output : String) : Report := ⟨output, none⟩

def failure (complaint : Complaint) : Report := ⟨"", some complaint⟩

end Report

/-! ### Pieces -/

def ofFormula (failure : Failure Formula.Error) : Complaint :=
  match failure with
  | .error e => .diagnosed e.diagnostic
  | .fault f => .fault f

def ofConfig (failure : Failure ConfigError) : Complaint :=
  match failure with
  | .error e => .diagnosed e.diagnostic
  | .fault f => .fault f

/-- The unit of a formula, or the complaint about it. -/
def evaluate (e : Evaluator) (formula : String) : Except Complaint MeasureUnit :=
  (e.evaluate formula).mapError ofFormula

/-- A value to the precision of the configuration. -/
def format (value : Double) (precision : Nat) : Except Complaint String :=
  match significant? value precision with
  | some text => .ok text
  | none => .error .precision

/-- JSON with sorted members, on lines of its own. -/
def printJson (value : Json) : String := value.sortMembers.pretty ++ "\n"

/-- Binds the unit of a definition's formula, which may use the definitions before it. -/
def defineOne (e : Evaluator) (definition : String × String) : Except Complaint Evaluator :=
  (evaluate e definition.2).map fun unit => e.define definition.1 unit

/-- Binds definitions in order. -/
def defineAll (e : Evaluator) (definitions : List (String × String)) : Except Complaint Evaluator :=
  definitions.foldlM defineOne e

/-! ### Subcommands -/

/-- A unit as lines: its factor, its dimension with a name if it has one, and the coherent unit. -/
def describeUnit (formula : String) (u : MeasureUnit) (precision : Nat) : Report :=
  match format u.factor precision with
  | .error complaint => ⟨unlines [formula], some complaint⟩
  | .ok factor =>
    let kind := match u.dimension.name? with
      | some name => String.join [" (", name, ")"]
      | none => ""
    .success (unlines [formula, "  factor     " ++ factor,
      String.join ["  dimension  ", u.dimension.text, kind],
      "  SI unit    " ++ u.dimension.siSymbol])

def unitJson (formula : String) (u : MeasureUnit) : Json :=
  .object [("formula", .string formula), ("unit", u.toJson), ("si", .string u.dimension.siSymbol),
    ("quantity", match u.dimension.name? with
      | some name => .string name
      | none => .null)]

def runEval (table : SymbolTable) (config : Config) (formula : String)
    (definitions : List (String × String)) (json : Bool) : Except Complaint Report := do
  let e ← defineAll (.ofTable table) definitions
  let u ← evaluate e formula
  if json then return .success (printJson (unitJson formula u))
  return describeUnit formula u config.precision

def runConvert (table : SymbolTable) (config : Config) (value : Double) (source target : String)
    (json : Bool) : Except Complaint Report := do
  let e := Evaluator.ofTable table
  let from? ← evaluate e source
  let to? ← evaluate e target
  let q : Quantity Double := ⟨value, from?⟩
  let result ← (q.convertToValue to?).mapError fun error => Complaint.diagnosed error.diagnostic
  if json then
    return .success (printJson (.object [("value", .real value), ("from", .string source),
      ("to", .string target), ("result", .real result)]))
  let before ← format value config.precision
  let after ← format result config.precision
  return .success (unlines [String.join [before, " ", source, " = ", after, " ", target]])

def runCompatible (table : SymbolTable) (a b : String) : Except Complaint Report := do
  let e := Evaluator.ofTable table
  let left ← evaluate e a
  let right ← evaluate e b
  if left.isCompatible right then
    return .success (unlines ["compatible: both measure " ++ left.dimension.text])
  return .success (unlines [String.join ["incompatible: `", a, "` measures ", left.dimension.text,
    ", `", b, "` measures ", right.dimension.text]])

def entryJson (entry : String × MeasureUnit) : Json :=
  .object [("name", .string entry.1), ("unit", entry.2.toJson)]

def prefixJson (p : MetricPrefix) : Json :=
  .object [("symbol", .string (String.ofList [p.symbol])), ("name", .string p.name),
    ("multiplier", .real p.multiplier)]

/-- The width of the column with the names of prefixes. -/
def prefixColumn : Nat := 6

def runUnits (table : SymbolTable) (json : Bool) : Report :=
  if json then
    .success (printJson (.object [("units", .array (table.entries.map entryJson)),
      ("prefixes", .array (MetricPrefix.all.map prefixJson))]))
  else
    let width := (table.entries.map fun entry => entry.1.utf8ByteSize).foldl max 0
    let units := table.entries.map fun entry =>
      String.join [padRight width entry.1, "  ", entry.2.text]
    let prefixes := MetricPrefix.all.map fun p =>
      String.join [String.ofList [p.symbol], "  ", padRight prefixColumn p.name, " ",
        Layout.powerOfTen.write p.multiplier]
    .success (unlines (units ++ [""] ++ prefixes))

/-! ### The whole program -/

/-- The configuration at a path that was given, or else the nearest one, or else the default one. -/
def loadConfig (tree : FileTree) (directory : Path) (path? : Option String) :
    Except ConfigError Config :=
  match path? with
  | some path => Config.ofFile tree directory path
  | none =>
    match Config.find? tree (.ofNames directory) with
    | some path => Config.ofFile tree [] path.toText
    | none => .ok .default

def runCommand (table : SymbolTable) (config : Config) : Command → Except Complaint Report
  | .eval formula definitions json => runEval table config formula definitions json
  | .convert value source target json => runConvert table config value source target json
  | .compatible a b => runCompatible table a b
  | .units json => .ok (runUnits table json)

def runInvocation (tree : FileTree) (directory : Path) (i : Invocation) :
    Except Complaint Report := do
  let config ← (loadConfig tree directory i.config?).mapError fun e => .diagnosed e.diagnostic
  let table ← config.symbolTable.mapError ofConfig
  runCommand table config i.command

/-- Runs the program in a directory of a file system. -/
def run (tree : FileTree) (directory : Path) (arguments : List String) : Report :=
  match readArguments arguments with
  | .error (.usage e) => .failure (.usage e)
  | .error (.help topic) => .success (helpText topic)
  | .error .version => .success (unlines [String.join [programName, " ", version]])
  | .ok invocation =>
    match runInvocation tree directory invocation with
    | .ok report => report
    | .error complaint => .failure complaint

end Metrology.CommandLine
