/-
Module: Metrology.Digit
Layer: Numbers
Purpose: Digits of a base up to thirty-six, and the numbers their sequences denote.
Imports: none (Mathlib-free)
Main exports: digitValue?, isDigitOf, positional, readNat?, readInt?
-/

namespace Metrology

/-- The value of an ASCII digit or letter, if it is below `base`. -/
def digitValue? (base : Nat) (c : Char) : Option Nat :=
  let value :=
    if '0' ≤ c ∧ c ≤ '9' then c.toNat - '0'.toNat
    else if 'a' ≤ c ∧ c ≤ 'z' then c.toNat - 'a'.toNat + 10
    else if 'A' ≤ c ∧ c ≤ 'Z' then c.toNat - 'A'.toNat + 10
    else base
  if value < base then some value else none

def isDigitOf (base : Nat) (c : Char) : Bool := (digitValue? base c).isSome

/-- The positional value of a sequence of digits, first digit first. -/
def positional (base : Nat) (digits : List Nat) : Nat :=
  digits.foldl (fun value digit => value * base + digit) 0

/-- The digit values of a text; characters that are no digit of the base have none. -/
def digitValues (base : Nat) (cs : List Char) : List Nat := cs.filterMap (digitValue? base)

/-- A non-empty sequence of decimal digits. -/
def readNat? (cs : List Char) : Option Nat :=
  if !cs.isEmpty && cs.all (isDigitOf 10) then some (positional 10 (digitValues 10 cs)) else none

/-- A non-empty sequence of decimal digits, with an optional sign. -/
def readInt? : List Char → Option Int
  | '+' :: cs => (readNat? cs).map fun n => (n : Int)
  | '-' :: cs => (readNat? cs).map fun n => -(n : Int)
  | cs => (readNat? cs).map fun n => (n : Int)

theorem positional_append (base : Nat) (front back : List Nat) :
    positional base (front ++ back) =
      back.foldl (fun value digit => value * base + digit) (positional base front) := by
  simp [positional]

theorem digitValue?_lt {base value : Nat} {c : Char} (h : digitValue? base c = some value) :
    value < base := by
  simp only [digitValue?, Option.ite_none_right_eq_some, Option.some.injEq] at h
  exact h.2 ▸ h.1

theorem digitValues_lt {base value : Nat} {cs : List Char} (mem : value ∈ digitValues base cs) :
    value < base := by
  obtain ⟨c, -, isValue⟩ := List.mem_filterMap.1 mem
  exact digitValue?_lt isValue

example : (digitValue? 16 'f', digitValue? 16 'g', digitValue? 8 '8') = (some 15, none, none) := by
  decide

end Metrology
