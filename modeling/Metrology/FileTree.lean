/-
Module: Metrology.FileTree
Layer: Documents
Purpose: File systems as data: a tree of named nodes, each a regular file with its text or a
  directory. A path in text is walked name by name; every name but the last has to lead to a
  directory.
Imports: Metrology.WrittenPath
Main exports: FileTree, FileTree.ofEntries, FileTree.isFile, FileTree.walk?, FileTree.read?
-/
import Metrology.WrittenPath

namespace Metrology

/-- A place in a file system: the names on the way from its root. -/
abbrev Path := List String

/-- What is at a place. -/
inductive FileNode where
  | file (text : String)
  | directory
deriving DecidableEq, Repr, Inhabited

/-- What is where; the root is a directory. -/
structure FileTree where
  node? : Path → Option FileNode

namespace FileTree

/-- The names in a path in text. -/
def names (text : String) : Path := (WrittenPath.ofText text).names

/-- One name further: two points take the last name away. -/
def stepTo (place : Path) (name : String) : Path :=
  if name = ".." then place.dropLast else place ++ [name]

/-- Where a path in text starts from: the root if it begins with a slash. -/
def startOf (directory : Path) (text : String) : Path :=
  if text.startsWith "/" then [] else directory

/-- The place that a path in text names, taken from a directory. -/
def place (directory : Path) (text : String) : Path :=
  (names text).foldl stepTo (startOf directory text)

/-- The places before the last name of a path in text. -/
def placesOnWay (directory : Path) (text : String) : List Path :=
  (List.range (names text).length).map fun count =>
    ((names text).take count).foldl stepTo (startOf directory text)

/-- Whether a list begins with another one. -/
def leadsTo (path whole : Path) : Bool := path.isPrefixOf whole

/-- The file system with some files, a later one in place of an earlier one, and some directories,
    and with all directories on the way to them. -/
def ofEntries (files : List (Path × String)) (directories : List Path) : FileTree where
  node? path :=
    match files.reverse.find? fun file => file.1 = path with
    | some file => some (.file file.2)
    | none =>
      if path.isEmpty || (files.any fun file => leadsTo path file.1) ||
          (directories.any fun directory => leadsTo path directory) then some .directory
      else none

def isDirectory (tree : FileTree) (path : Path) : Bool :=
  match tree.node? path with
  | some .directory => true
  | _ => false

/-- The place that names lead to from a directory; two points lead to the parent. -/
def walk? (tree : FileTree) (place : Path) : List String → Option Path
  | [] => some place
  | name :: rest =>
    if !tree.isDirectory place then none
    else if name = ".." then walk? tree place.dropLast rest
    else
      let next := place ++ [name]
      if (tree.node? next).isSome then walk? tree next rest else none

/-- What a path from the root leads to. -/
def at? (tree : FileTree) (path : Path) : Option FileNode := (tree.walk? [] path).bind tree.node?

def isFile (tree : FileTree) (path : Path) : Bool :=
  match tree.at? path with
  | some (.file _) => true
  | _ => false

/-- The place of a path in text; one that ends in a slash has to be a directory. -/
def locate? (tree : FileTree) (directory : Path) (text : String) : Option Path :=
  match tree.walk? (startOf directory text) (names text) with
  | none => none
  | some place =>
    let asksDirectory := text.endsWith "/" || text.endsWith "/."
    if text.isEmpty || (asksDirectory && !tree.isDirectory place) then none
    else some place

/-- The text of the file at a path in text. -/
def read? (tree : FileTree) (directory : Path) (text : String) : Option String :=
  match (tree.locate? directory text).bind tree.node? with
  | some (.file content) => some content
  | _ => none

end FileTree

end Metrology
