/-
Module: Metrology.Diagnostic
Layer: Text
Purpose: The report of a failure: a stable code, a message, an optional hint, and labelled ranges of
  the text that it is about.
Imports: Metrology.Span
Main exports: Diagnostic
-/
import Metrology.Span

namespace Metrology

/-- A failure as it is reported. -/
structure Diagnostic where
  code : String
  message : String
  help? : Option String
  labels : List (Span × String)
deriving DecidableEq, Repr, Inhabited

end Metrology
