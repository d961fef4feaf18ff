/-
Module: Metrology.Main
Layer: Command line
Purpose: The program. It reads the configuration files that a run can ask for, runs the command line
  over them, and prints the report.
Imports: Metrology.CommandLine.Run
Main exports: main
-/
import Metrology.CommandLine.Run

namespace Metrology.CommandLine

/-- A place with the text of the file there, if there is one that can be read. -/
def readPlace (place : Path) : IO (List (Path × String)) := do
  try
    let text ← IO.FS.readFile ("/" ++ "/".intercalate place)
    return [(place, text)]
  catch _ => return []

/-- The places of the configuration files that a run in a directory can ask for. -/
def candidatePlaces (directory : Path) (arguments : List String) : List Path :=
  let above := (List.range (directory.length + 1)).flatMap fun depth =>
    Config.fileNames.map fun name => directory.take depth ++ [name]
  match readArguments arguments with
  | .ok invocation =>
    match invocation.config? with
    | some path => FileTree.place directory path :: above
    | none => above
  | .error _ => []

/-- The directories that a run names on the way to a configuration file. -/
def namedDirectories (directory : Path) (arguments : List String) : List Path :=
  match readArguments arguments with
  | .ok ⟨_, some path, _⟩ => FileTree.placesOnWay directory path
  | _ => []

/-- Reads what a run can ask for, runs it, and prints its report. -/
def program (arguments : List String) : IO UInt32 := do
  let directory := FileTree.names (toString (← IO.currentDir))
  let files ← (candidatePlaces directory arguments).mapM readPlace
  let tree := FileTree.ofEntries files.flatten (directory :: namedDirectories directory arguments)
  let report := run tree directory arguments
  IO.print report.output
  match report.complaint? with
  | some complaint => IO.eprintln complaint.message
  | none => pure ()
  return UInt32.ofNat report.status

end Metrology.CommandLine

def main (arguments : List String) : IO UInt32 := Metrology.CommandLine.program arguments
