/-
Module: Metrology.Reading
Layer: Text
Purpose: What a reader hands back: a result, and the rest of its input, which is shorter than the
  input was. Loops over readers end because of it.
Imports: none (Mathlib-free)
Main exports: Reading, Continuation, Reading.ofOption?, length_lt_of_dropWhile, afterWord?
-/

namespace Metrology

/-- A result, and what is left of the input after using at least one item of it. -/
abbrev Reading {ι : Type} (α : Type) (input : List ι) :=
  { r : α × List ι // r.2.length < input.length }

/-- A result, and what is left of the input, which may be all of it. -/
abbrev Continuation {ι : Type} (α : Type) (input : List ι) :=
  { r : α × List ι // r.2.length ≤ input.length }

/-- A result that is known to have used some of the input. -/
def Reading.ofOption? {ι α : Type} (input : List ι) (r : Option (α × List ι)) :
    Option (Reading α input) :=
  match r with
  | some (value, rest) => if h : rest.length < input.length then some ⟨(value, rest), h⟩ else none
  | none => none

/-- What stands behind the first item that is not skipped is shorter than the input. -/
theorem length_lt_of_dropWhile {ι : Type} {skipped : ι → Bool} {input rest : List ι} {item : ι}
    (h : input.dropWhile skipped = item :: rest) : rest.length < input.length := by
  have shorter := (input.dropWhile_suffix skipped).length_le
  rwa [h, List.length_cons] at shorter

/-- The characters after a word that stands at the front. -/
def afterWord? : List Char → List Char → Option (List Char)
  | [], cs => some cs
  | w :: word, c :: cs => if w = c then afterWord? word cs else none
  | _ :: _, [] => none

theorem afterWord?_eq_some_iff {word cs rest : List Char} :
    afterWord? word cs = some rest ↔ cs = word ++ rest := by
  induction word generalizing cs with
  | nil => simp [afterWord?, eq_comm]
  | cons w word ih =>
    cases cs with
    | nil => simp [afterWord?]
    | cons c cs =>
      by_cases same : w = c
      · subst same
        simp [afterWord?, ih]
      · simp [afterWord?, same, Ne.symm same]

end Metrology
