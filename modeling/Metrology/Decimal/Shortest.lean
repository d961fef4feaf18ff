/-
Module: Metrology.Decimal.Shortest
Layer: Numbers
Purpose: The shortest decimal that reads back as a given binary value. Grids of 1, 2, … 17
  significant digits are tried in turn; on the first grid with a neighbour of the value that reads
  back, the nearer such neighbour is taken, and a tie is left to the caller.
Imports: Metrology.Decimal.Number
Main exports: Decimal.readsBack, Binary.shortest
-/
import Metrology.Decimal.Number

namespace Metrology

/-- A decimal is a name of the magnitude `units` when reading it gives those units again. -/
def Decimal.readsBack (w : Width) (units : Nat) (d : Decimal) : Bool :=
  match d.toBinary w false with
  | .finite _ read _ => read == units
  | _ => false

namespace Binary

variable {w : Width}

/-- The magnitude `units` on the decimal grid `10 ^ exponent`, as an exact quotient. -/
def gridNum (units : Nat) (exponent : Int) : Nat := units * 10 ^ (-exponent).toNat

def gridDen (w : Width) (exponent : Int) : Nat := w.one * 10 ^ exponent.toNat

/-- The neighbour of the value on one grid that reads back, the nearer one if both do. -/
def onGrid? (w : Width) (tie : Tie) (units : Nat) (exponent : Int) : Option Decimal :=
  let num := gridNum units exponent
  let den := gridDen w exponent
  let below : Decimal := ⟨num / den, exponent⟩
  let above : Decimal := ⟨num / den + 1, exponent⟩
  match below.readsBack w units, above.readsBack w units with
  | true, true => some ⟨divRound tie num den, exponent⟩
  | true, false => some below
  | false, true => some above
  | false, false => none

/-- Seventeen significant digits tell any two doubles apart. -/
def longestDigits : Nat := 17

/-- The shortest decimal that reads back as the positive magnitude `units`. -/
def shortestUnits (w : Width) (tie : Tie) (units : Nat) : Decimal :=
  let lead := leadingExponent units w.one
  let found := (List.range longestDigits).findSome? fun (k : Nat) => onGrid? w tie units (lead - k)
  (found.getD ⟨divRound tie units w.one, 0⟩).normalize

/-- The shortest decimal of a finite magnitude; zero is `0`. -/
def shortest (tie : Tie) : Binary w → Decimal
  | .finite _ units _ => if units = 0 then ⟨0, 0⟩ else shortestUnits w tie units
  | _ => ⟨0, 0⟩

end Binary

end Metrology
