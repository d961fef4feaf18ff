/-
Module: Metrology.CommandLine.Help
Layer: Command line
Purpose: The help texts of the program and its subcommands: what it is for, how it is called, and
  two columns that explain subcommands, operands and options.
Imports: Metrology.CommandLine.Arguments
Main exports: programName, version, helpText, UsageError.message
-/
import Metrology.CommandLine.Arguments

namespace Metrology.CommandLine

/-- The name that the program is called by. -/
def programName : String := "quantis"

def version : String := "0.1.0"

namespace Subcommand

/-- What the subcommand is for. -/
def summary : Subcommand → String
  | eval => "Evaluate a unit formula such as \"kg / m^3\""
  | convert => "Convert a value from one unit to another"
  | compatible => "Check whether two units measure the same kind of dimension"
  | units => "List every known unit name and metric prefix"

end Subcommand

/-- What the subcommand about help is for. -/
def helpSummary : String := "Print this message or the help of the given subcommand(s)"

/-! ### Two columns -/

/-- A name and what it means. -/
abbrev Row := String × String

def configRow : Row :=
  ("-c, --config <FILE>", "Configuration file (default: nearest quantis.toml)")

def verboseRow : Row := ("-v, --verbose", "Enable verbose output")

def helpRow : Row := ("-h, --help", "Print help")

def versionRow : Row := ("-V, --version", "Print version")

def defineRow : Row :=
  ("-D, --define <NAME=FORMULA>", "Bind an extra unit for this formula (repeatable)")

def jsonRow : Row := ("    --json", "Print JSON instead of text")

/-- Subcommands with their summaries. -/
def commandRows : List Row :=
  (Subcommand.all.map fun s => (s.name, s.summary)) ++ [("help", helpSummary)]

/-- The options that belong to a subcommand alone. -/
def ownRows : Subcommand → List Row
  | .eval => [defineRow, jsonRow]
  | .convert => [jsonRow]
  | .compatible => []
  | .units => [jsonRow]

/-- The options of the program or of a subcommand, in the order of their listing: its own ones come
    before those that every subcommand takes. -/
def optionRows : Option Subcommand → List Row
  | none => [configRow, verboseRow, helpRow, versionRow]
  | some s => ownRows s ++ [configRow, verboseRow, helpRow]

/-- Fills a text up with blanks. -/
def padRight (width : Nat) (text : String) : String :=
  text ++ String.ofList (List.replicate (width - text.length) ' ')

/-- A heading over rows whose second column is aligned. -/
def listing (heading : String) (rows : List Row) : List String :=
  if rows.isEmpty then []
  else
    let width := (rows.map fun row => row.1.length).foldl max 0
    ["", heading] ++ rows.map fun row => String.join ["  ", padRight width row.1, "  ", row.2]

def operandText (name : String) : String := String.join ["<", name, ">"]

/-- How the program, or a subcommand, is called. -/
def usageLine : Option Subcommand → String
  | none => String.join ["Usage: ", programName, " [OPTIONS] <COMMAND>"]
  | some s => " ".intercalate
      (["Usage:", programName, s.name, "[OPTIONS]"] ++ s.operands.map operandText)

/-- The lines of a help text. -/
def helpLines : Topic → List String
  | .overview =>
    ["Evaluate unit formulas and convert between units of measure", "", usageLine none] ++
      listing "Commands:" commandRows ++ listing "Options:" (optionRows none)
  | .subcommand s =>
    [s.summary, "", usageLine (some s)] ++
      listing "Arguments:" (s.operands.map fun name => (operandText name, "")) ++
      listing "Options:" (optionRows (some s))
  | .help =>
    [helpSummary, "", String.join ["Usage: ", programName, " help [COMMAND]..."]] ++
      listing "Arguments:" [("[COMMAND]...", "Print help for the subcommand(s)")]

/-- Lines, each with its line end. -/
def unlines (lines : List String) : String := String.join (lines.map fun line => line ++ "\n")

def helpText (topic : Topic) : String := unlines (helpLines topic)

/-- The complaint about arguments that make no command. -/
def UsageError.message : UsageError → String
  | unknownArgument text => String.join ["unexpected argument `", text, "`"]
  | unknownSubcommand text => String.join ["unrecognized subcommand `", text, "`"]
  | missingSubcommand => "a subcommand is required"
  | missingOperand name => String.join ["the argument ", operandText name, " is required"]
  | missingValue option => String.join ["the option `--", option, "` needs a value"]
  | unwantedValue option => String.join ["the option `--", option, "` takes no value"]
  | invalidValue name text => String.join ["invalid value `", text, "` for ", name]
  | repeatedOption option => String.join ["the option `--", option, "` cannot be repeated"]

end Metrology.CommandLine
