/-
Module: Metrology.WrittenPath
Layer: Documents
Purpose: Paths as they are written. Slashes and single points between names mean nothing, but they
  stay in what is written: a parent loses its last name and everything after the name before it, and
  a child comes after everything that is written so far.
Imports: none (Mathlib-free)
Main exports: WrittenPath, WrittenPath.ofText, WrittenPath.names, WrittenPath.parent,
  WrittenPath.child, WrittenPath.toText
-/

namespace Metrology

/-- A name in a path, after the slashes and single points that lead to it. -/
structure PathStep where
  gap : List Char
  name : String
deriving DecidableEq, Repr, Inhabited

/-- A path: its names, and what is written after the last of them. -/
structure WrittenPath where
  steps : List PathStep
  rest : List Char
deriving DecidableEq, Repr, Inhabited

namespace WrittenPath

/-- What stands between slashes. -/
def segments : List Char → List (List Char)
  | [] => [[]]
  | c :: cs =>
    match segments cs with
    | [] => []
    | first :: others => if c = '/' then [] :: first :: others else (c :: first) :: others

/-- Nothing at all and a single point are no names. -/
def isFiller (segment : List Char) : Bool := segment == [] || segment == ['.']

/-- Reads segments that stand after a gap. -/
def ofSegments (gap : List Char) : List (List Char) → WrittenPath
  | [] => ⟨[], gap⟩
  | [last] => if isFiller last then ⟨[], gap ++ last⟩ else ⟨[⟨gap, String.ofList last⟩], []⟩
  | segment :: others =>
    if isFiller segment then ofSegments (gap ++ segment ++ ['/']) others
    else
      let path := ofSegments ['/'] others
      ⟨⟨gap, String.ofList segment⟩ :: path.steps, path.rest⟩

def ofText (text : String) : WrittenPath := ofSegments [] (segments text.toList)

/-- The path from the root along some names. -/
def ofNames (names : List String) : WrittenPath := ⟨names.map fun name => ⟨['/'], name⟩, []⟩

def names (p : WrittenPath) : List String := p.steps.map PathStep.name

def toText (p : WrittenPath) : String :=
  String.ofList ((p.steps.flatMap fun step => step.gap ++ step.name.toList) ++ p.rest)

/-- The path without its last name. -/
def parent (p : WrittenPath) : WrittenPath := ⟨p.steps.dropLast, []⟩

/-- The path with one more name, after a slash. -/
def child (p : WrittenPath) (name : String) : WrittenPath :=
  let gap := if p.rest.getLast? = some '/' then p.rest else p.rest ++ ['/']
  ⟨p.steps ++ [⟨gap, name⟩], []⟩

@[simp] theorem names_ofNames (names : List String) : (ofNames names).names = names := by
  simp [ofNames, WrittenPath.names, Function.comp_def]

@[simp] theorem names_parent (p : WrittenPath) : p.parent.names = p.names.dropLast := by
  simp [parent, names, List.map_dropLast]

/-- A path with names is longer than its parent. -/
theorem length_parent_lt {p : WrittenPath} (named : ¬ p.steps.isEmpty = true) :
    p.parent.steps.length < p.steps.length := by
  have some : p.steps ≠ [] := by simpa using named
  rw [parent, List.length_dropLast]
  exact Nat.sub_lt (List.length_pos_iff.2 some) Nat.one_pos

@[simp] theorem names_child (p : WrittenPath) (name : String) :
    (p.child name).names = p.names ++ [name] := by
  simp [child, names]

example : ((ofText "/a//b/./").child "c").toText = "/a//b/./c" := by decide +kernel

example : (ofText "/a//b/./").parent.toText = "/a" := by decide +kernel

end WrittenPath

end Metrology
