/-
Module: Metrology.Span
Layer: Text
Purpose: Byte ranges of a text. Offsets count bytes of the text's UTF-8 encoding, and a span is half
  open.
Imports: none (Mathlib-free)
Main exports: Span, Span.point, Span.merge, Span.length, byteLength
-/

namespace Metrology

/-- The bytes of a text from `start` up to, but not including, `stop`. -/
structure Span where
  start : Nat
  stop : Nat
deriving DecidableEq, Repr, Inhabited

namespace Span

/-- The empty span at an offset. -/
def point (offset : Nat) : Span := ⟨offset, offset⟩

/-- The least span that covers both. -/
def merge (a b : Span) : Span := ⟨min a.start b.start, max a.stop b.stop⟩

/-- How many bytes a span covers; a reversed one covers none. -/
def length (s : Span) : Nat := s.stop - s.start

def isEmpty (s : Span) : Bool := decide (s.stop ≤ s.start)

def text (s : Span) : String := s!"{s.start}..{s.stop}"

/-- The span moved towards the end of the text. -/
def shift (offset : Nat) (s : Span) : Span := ⟨s.start + offset, s.stop + offset⟩

@[simp] theorem length_point (offset : Nat) : (point offset).length = 0 := by simp [point, length]

theorem isEmpty_iff_length_eq_zero (s : Span) : s.isEmpty = true ↔ s.length = 0 := by
  simp only [isEmpty, length, decide_eq_true_eq]
  omega

theorem merge_comm (a b : Span) : a.merge b = b.merge a := by
  simp [merge, Nat.min_comm, Nat.max_comm]

end Span

/-- How many bytes the UTF-8 encoding of the characters takes. -/
def byteLength : List Char → Nat
  | [] => 0
  | c :: cs => c.utf8Size + byteLength cs

@[simp] theorem byteLength_nil : byteLength [] = 0 := rfl

@[simp] theorem byteLength_cons (c : Char) (cs : List Char) :
    byteLength (c :: cs) = c.utf8Size + byteLength cs := rfl

@[simp] theorem byteLength_append (front back : List Char) :
    byteLength (front ++ back) = byteLength front + byteLength back := by
  induction front with
  | nil => simp
  | cons c cs ih => simp [ih, Nat.add_assoc]

end Metrology
