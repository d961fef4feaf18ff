/-
Module: Metrology.Proofs.DimensionText
Layer: Proofs
Purpose: The written forms of a dimension tell dimensions apart. Raised digits give back the power,
  and no symbol contains one; the sign between symbols and the slash occur in no symbol either. So a
  fraction splits in one way into the terms above and below the line, and these are the exponents
  that are not zero.
Imports: Mathlib.Data.List.Basic, Metrology.Dimension, Metrology.Proofs.DecimalLiteral
Main exports: Dimension.Legible, Dimension.ext_terms, Dimension.mem_fraction,
  Dimension.mem_fraction_of_exponent_ne_zero, Dimension.Legible.fraction_inj,
  Dimension.siSymbol_inj, Dimension.text_inj
-/
import Mathlib.Data.List.Basic
import Metrology.Dimension
import Metrology.Proofs.DecimalLiteral

namespace Metrology

/-- The ten decimal digits are what `isDigit` accepts. -/
theorem mem_of_isDigit {c : Char} (h : c.isDigit = true) :
    c ∈ ['0', '1', '2', '3', '4', '5', '6', '7', '8', '9'] := by
  have range : '0' ≤ c ∧ c ≤ '9' := by
    simpa [Char.isDigit, Char.le_def] using h
  have lower : 48 ≤ c.toNat := range.1
  have upper : c.toNat ≤ 57 := range.2
  have values : c.toNat ∈ [48, 49, 50, 51, 52, 53, 54, 55, 56, 57] := by
    simp only [List.mem_cons, List.not_mem_nil]
    omega
  have chars := List.mem_map_of_mem (f := Char.ofNat) values
  rwa [Char.ofNat_toNat] at chars

namespace Dimension

/-! ### Raised powers -/

def raisedDigits : List Char := ['⁰', '¹', '²', '³', '⁴', '⁵', '⁶', '⁷', '⁸', '⁹']

/-- The decimal digit that a raised digit stands for. -/
def lowered : Char → Char
  | '⁰' => '0'
  | '¹' => '1'
  | '²' => '2'
  | '³' => '3'
  | '⁴' => '4'
  | '⁵' => '5'
  | '⁶' => '6'
  | '⁷' => '7'
  | '⁸' => '8'
  | '⁹' => '9'
  | other => other

theorem raised_of_isDigit {c : Char} (h : c.isDigit = true) :
    superscriptDigit c ∈ raisedDigits ∧ lowered (superscriptDigit c) = c := by
  have each : ∀ d ∈ ['0', '1', '2', '3', '4', '5', '6', '7', '8', '9'],
      superscriptDigit d ∈ raisedDigits ∧ lowered (superscriptDigit d) = d := by
    simp [superscriptDigit, raisedDigits, lowered]
  exact each c (mem_of_isDigit h)

/-- What stands behind a symbol: nothing for the first power. -/
def raisedPower (n : Nat) : List Char :=
  if n = 1 then [] else (decimalDigits n).map superscriptDigit

theorem symbolPower_eq (symbol : List Char) (n : Nat) :
    symbolPower symbol n = symbol ++ raisedPower n := by
  unfold symbolPower raisedPower
  split
  · rw [List.append_nil]
  · rfl

theorem mem_raisedDigits_of_mem_raisedPower {n : Nat} {c : Char} (h : c ∈ raisedPower n) :
    c ∈ raisedDigits := by
  unfold raisedPower at h
  split at h
  · cases h
  · obtain ⟨d, digit, rfl⟩ := List.mem_map.1 h
    exact (raised_of_isDigit (isDigit_of_mem_decimalDigits digit)).1

theorem lowered_raised (n : Nat) :
    ((decimalDigits n).map superscriptDigit).map lowered = decimalDigits n := by
  rw [List.map_map]
  conv => rhs; rw [← List.map_id (decimalDigits n)]
  refine List.map_congr_left fun c digit => ?_
  exact (raised_of_isDigit (isDigit_of_mem_decimalDigits digit)).2

theorem raisedPower_inj {m n : Nat} (h : raisedPower m = raisedPower n) : m = n := by
  unfold raisedPower at h
  split at h
  · next one =>
      split at h
      · next other => rw [one, other]
      · exact absurd (List.map_eq_nil_iff.1 h.symm) Nat.toDigits_ne_nil
  · split at h
    · exact absurd (List.map_eq_nil_iff.1 h) Nat.toDigits_ne_nil
    · have digits := congrArg (List.map lowered) h
      rw [lowered_raised, lowered_raised] at digits
      rw [← positional_decimalDigits m, digits, positional_decimalDigits]

/-! ### Terms -/

/-- The quantities on one side of the line, each with the magnitude of its exponent. -/
def terms (d : Dimension) (side : Int → Bool) : List (BaseQuantity × Nat) :=
  (BaseQuantity.writingOrder.filter fun q => side (d.exponent q)).map fun q =>
    (q, (d.exponent q).natAbs)

theorem factors_eq (d : Dimension) (symbol : BaseQuantity → List Char) (side : Int → Bool) :
    d.factors symbol side = (d.terms side).map fun t => symbolPower (symbol t.1) t.2 := by
  rw [factors, terms, List.map_map]
  rfl

theorem mem_terms {d : Dimension} {side : Int → Bool} {q : BaseQuantity} {n : Nat} :
    (q, n) ∈ d.terms side ↔ side (d.exponent q) = true ∧ (d.exponent q).natAbs = n := by
  simp [terms, BaseQuantity.mem_writingOrder]

/-- The terms on both sides of the line are all exponents that are not zero. -/
theorem ext_terms {a b : Dimension}
    (above : a.terms (fun e => decide (0 < e)) = b.terms fun e => decide (0 < e))
    (below : a.terms (fun e => decide (e < 0)) = b.terms fun e => decide (e < 0)) : a = b := by
  apply ext_exponent
  intro q
  have positive : ∀ n : Nat, 0 < a.exponent q ∧ (a.exponent q).natAbs = n ↔
      0 < b.exponent q ∧ (b.exponent q).natAbs = n := by
    intro n
    have same : (q, n) ∈ a.terms (fun e => decide (0 < e)) ↔
        (q, n) ∈ b.terms fun e => decide (0 < e) := by rw [above]
    simpa only [mem_terms, decide_eq_true_eq] using same
  have negative : ∀ n : Nat, a.exponent q < 0 ∧ (a.exponent q).natAbs = n ↔
      b.exponent q < 0 ∧ (b.exponent q).natAbs = n := by
    intro n
    have same : (q, n) ∈ a.terms (fun e => decide (e < 0)) ↔
        (q, n) ∈ b.terms fun e => decide (e < 0) := by rw [below]
    simpa only [mem_terms, decide_eq_true_eq] using same
  have up := positive (a.exponent q).natAbs
  have up' := positive (b.exponent q).natAbs
  have down := negative (a.exponent q).natAbs
  have down' := negative (b.exponent q).natAbs
  omega

/-! ### Fractions -/

/-- Symbols that can be told apart in a fraction: they are distinct, and neither in them nor between
    them there is a slash, a raised digit or the `1` of an empty side. -/
structure Legible (symbol : BaseQuantity → List Char) (joint : Char) : Prop where
  distinct : ∀ q r, symbol q = symbol r → q = r
  letters : ∀ q, ∀ c ∈ symbol q, c ∉ joint :: '/' :: '1' :: raisedDigits
  joint : joint ∉ '/' :: '1' :: raisedDigits

theorem legible_unitSymbol : Legible BaseQuantity.unitSymbol '·' where
  distinct q r := by cases q <;> cases r <;> decide
  letters q := by cases q <;> simp [BaseQuantity.unitSymbol, raisedDigits]
  joint := by decide

theorem legible_letter : Legible BaseQuantity.letter ' ' where
  distinct q r := by cases q <;> cases r <;> decide
  letters q := by cases q <;> simp [BaseQuantity.letter, raisedDigits]
  joint := by decide

/-- One side of the line: `1` stands for an empty one above it. -/
def numerator (joint : Char) (above : List (List Char)) : List Char :=
  if above.isEmpty then ['1'] else [joint].intercalate above

theorem mem_intercalate {joint c : Char} {parts : List (List Char)}
    (h : c ∈ [joint].intercalate parts) : c = joint ∨ ∃ part ∈ parts, c ∈ part := by
  induction parts with
  | nil => cases h
  | cons part parts ih =>
      cases parts with
      | nil =>
          rw [List.intercalate_singleton] at h
          exact .inr ⟨part, by simp, h⟩
      | cons next parts =>
          rw [List.intercalate_cons_cons, List.mem_append, List.mem_append,
            List.mem_singleton] at h
          rcases h with (here | between) | behind
          · exact .inr ⟨part, by simp, here⟩
          · exact .inl between
          · rcases ih behind with between | ⟨other, mem, inside⟩
            · exact .inl between
            · exact .inr ⟨other, List.mem_cons_of_mem _ mem, inside⟩

theorem mem_intercalate_of_mem {joint c : Char} {part : List Char} {parts : List (List Char)}
    (mem : part ∈ parts) (inside : c ∈ part) : c ∈ [joint].intercalate parts := by
  induction parts with
  | nil => cases mem
  | cons first parts ih =>
      cases parts with
      | nil =>
          rw [List.intercalate_singleton]
          rwa [List.mem_singleton.1 mem] at inside
      | cons next parts =>
          rw [List.intercalate_cons_cons, List.mem_append]
          rcases List.mem_cons.1 mem with rfl | behind
          · exact .inl (List.mem_append_left _ inside)
          · exact .inr (ih behind)

section Legibility

variable {symbol : BaseQuantity → List Char} {joint : Char} {d a b : Dimension}
  {side : Int → Bool}

theorem mem_symbolPower {c : Char} {s : List Char} {n : Nat} (h : c ∈ symbolPower s n) :
    c ∈ s ∨ c ∈ raisedDigits := by
  rw [symbolPower_eq, List.mem_append] at h
  exact h.imp_right mem_raisedDigits_of_mem_raisedPower

/-- A symbol with its power gives back both. -/
theorem Legible.symbolPower_inj (legible : Legible symbol joint) {t u : BaseQuantity × Nat}
    (h : symbolPower (symbol t.1) t.2 = symbolPower (symbol u.1) u.2) : t = u := by
  have split : ∀ (q : BaseQuantity) (n : Nat),
      (symbolPower (symbol q) n).partition (fun c => decide (c ∈ raisedDigits)) =
        (raisedPower n, symbol q) := by
    intro q n
    have plain : ∀ c ∈ symbol q, c ∉ raisedDigits := by
      intro c mem raised
      exact legible.letters q c mem (List.mem_cons_of_mem _ (List.mem_cons_of_mem _
        (List.mem_cons_of_mem _ raised)))
    have raised : ∀ c ∈ raisedPower n, c ∈ raisedDigits := by
      intro c mem
      exact mem_raisedDigits_of_mem_raisedPower mem
    rw [List.partition_eq_filter_filter, symbolPower_eq, List.filter_append, List.filter_append,
      List.filter_eq_nil_iff.2 (by simpa using plain),
      List.filter_eq_self.2 (by simpa using raised),
      List.filter_eq_self.2 (by simpa using plain),
      List.filter_eq_nil_iff.2 (by simpa using raised),
      List.nil_append, List.append_nil]
  have parts := split t.1 t.2
  rw [h, split u.1 u.2, Prod.mk.injEq] at parts
  exact Prod.ext (legible.distinct _ _ parts.2.symm) (raisedPower_inj parts.1.symm)

/-- The characters between symbols do not occur in a symbol with its power. -/
theorem Legible.not_mem_factor (legible : Legible symbol joint) {part : List Char}
    (mem : part ∈ d.factors symbol side) :
    joint ∉ part ∧ '/' ∉ part ∧ '1' ∉ part := by
  rw [factors_eq] at mem
  obtain ⟨⟨q, n⟩, -, rfl⟩ := List.mem_map.1 mem
  have outside : ∀ c ∈ [joint, '/', '1'], c ∉ symbolPower (symbol q) n := by
    intro c separator inside
    rcases mem_symbolPower inside with letter | raised
    · refine legible.letters q c letter ?_
      simp only [List.mem_cons, List.not_mem_nil, or_false] at separator ⊢
      tauto
    · simp only [List.mem_cons, List.not_mem_nil, or_false] at separator
      rcases separator with rfl | rfl | rfl
      · exact legible.joint (List.mem_cons_of_mem _ (List.mem_cons_of_mem _ raised))
      · exact absurd raised (by decide)
      · exact absurd raised (by decide)
  exact ⟨outside _ (by simp), outside _ (by simp), outside _ (by simp)⟩

/-- Symbols joined by a character that none of them contains give back the terms. -/
theorem Legible.terms_eq (legible : Legible symbol joint)
    (hd : d.factors symbol side ≠ []) (ha : a.factors symbol side ≠ [])
    (h : [joint].intercalate (d.factors symbol side) =
      [joint].intercalate (a.factors symbol side)) : d.terms side = a.terms side := by
  have same := congrArg (List.splitOn joint) h
  rw [List.splitOn_intercalate joint (fun part mem => (legible.not_mem_factor mem).1) hd,
    List.splitOn_intercalate joint (fun part mem => (legible.not_mem_factor mem).1) ha,
    factors_eq, factors_eq] at same
  exact (List.map_injective_iff.2 fun t u => legible.symbolPower_inj) same

theorem factors_eq_nil_iff : d.factors symbol side = [] ↔ d.terms side = [] := by
  rw [factors_eq, List.map_eq_nil_iff]

theorem Legible.slash_not_mem (legible : Legible symbol joint) :
    '/' ∉ [joint].intercalate (d.factors symbol side) := by
  intro slash
  rcases mem_intercalate slash with rfl | ⟨part, mem, inside⟩
  · exact legible.joint (by simp)
  · exact (legible.not_mem_factor mem).2.1 inside

theorem Legible.slash_not_mem_numerator (legible : Legible symbol joint) :
    '/' ∉ numerator joint (d.factors symbol side) := by
  unfold numerator
  split
  · decide
  · exact legible.slash_not_mem

theorem Legible.numerator_ne (legible : Legible symbol joint) :
    ['1'] ≠ [joint].intercalate (d.factors symbol side) := by
  intro same
  have one : '1' ∈ [joint].intercalate (d.factors symbol side) := same ▸ List.mem_singleton_self _
  rcases mem_intercalate one with rfl | ⟨part, mem, inside⟩
  · exact legible.joint (by simp)
  · exact (legible.not_mem_factor mem).2.2 inside

/-- What stands above the line gives back the terms there. -/
theorem Legible.terms_eq_of_numerator (legible : Legible symbol joint)
    (h : numerator joint (d.factors symbol side) = numerator joint (a.factors symbol side)) :
    d.terms side = a.terms side := by
  unfold numerator at h
  simp only [List.isEmpty_iff] at h
  by_cases noneD : d.factors symbol side = []
  · by_cases noneA : a.factors symbol side = []
    · rw [factors_eq_nil_iff.1 noneD, factors_eq_nil_iff.1 noneA]
    · rw [if_pos noneD, if_neg noneA] at h
      exact absurd h legible.numerator_ne
  · by_cases noneA : a.factors symbol side = []
    · rw [if_neg noneD, if_pos noneA] at h
      exact absurd h.symm legible.numerator_ne
    · rw [if_neg noneD, if_neg noneA] at h
      exact legible.terms_eq noneD noneA h

theorem fraction_eq (d : Dimension) (slash : List Char) :
    d.fraction symbol [joint] slash =
      numerator joint (d.factors symbol fun e => decide (0 < e)) ++
        if d.factors symbol (fun e => decide (e < 0)) = [] then []
        else slash ++ [joint].intercalate (d.factors symbol fun e => decide (e < 0)) := by
  simp only [fraction, numerator, List.isEmpty_iff]
  split <;> simp

/-- Fractions of different dimensions are written differently. -/
theorem Legible.fraction_inj (legible : Legible symbol joint) (pad : List Char)
    (noSlash : '/' ∉ pad)
    (h : a.fraction symbol [joint] (pad ++ '/' :: pad) =
      b.fraction symbol [joint] (pad ++ '/' :: pad)) : a = b := by
  rw [fraction_eq, fraction_eq] at h
  by_cases noneA : a.factors symbol (fun e => decide (e < 0)) = []
  · by_cases noneB : b.factors symbol (fun e => decide (e < 0)) = []
    · rw [if_pos noneA, if_pos noneB, List.append_nil, List.append_nil] at h
      refine ext_terms (legible.terms_eq_of_numerator h) ?_
      rw [factors_eq_nil_iff.1 noneA, factors_eq_nil_iff.1 noneB]
    · rw [if_pos noneA, if_neg noneB, List.append_nil] at h
      have slash : '/' ∈ numerator joint (a.factors symbol fun e => decide (0 < e)) := by
        simp [h]
      exact absurd slash legible.slash_not_mem_numerator
  · by_cases noneB : b.factors symbol (fun e => decide (e < 0)) = []
    · rw [if_neg noneA, if_pos noneB, List.append_nil] at h
      have slash : '/' ∈ numerator joint (b.factors symbol fun e => decide (0 < e)) := by
        simp [← h]
      exact absurd slash legible.slash_not_mem_numerator
    · rw [if_neg noneA, if_neg noneB] at h
      simp only [List.append_assoc, List.cons_append] at h
      rw [← List.append_assoc, ← List.append_assoc (numerator joint (b.factors symbol _))] at h
      -- the slash is the only one, so both sides of it are the same
      obtain ⟨left, -, right⟩ := (List.append_cons_inj_of_notMem
        (by simp [noSlash, legible.slash_not_mem_numerator])
        (by simp [noSlash, legible.slash_not_mem])).1 h
      exact ext_terms (legible.terms_eq_of_numerator (List.append_cancel_right left))
        (legible.terms_eq noneA noneB (List.append_cancel_left right))

/-- A fraction consists of symbols, raised digits and the signs between them. -/
theorem mem_fraction {c : Char} {slash : List Char} (h : c ∈ d.fraction symbol [joint] slash) :
    c ∈ joint :: '1' :: slash ∨ c ∈ raisedDigits ∨ ∃ q, c ∈ symbol q := by
  have joined : ∀ {side}, c ∈ [joint].intercalate (d.factors symbol side) →
      c ∈ joint :: '1' :: slash ∨ c ∈ raisedDigits ∨ ∃ q, c ∈ symbol q := by
    intro side mem
    rcases mem_intercalate mem with rfl | ⟨part, isFactor, inside⟩
    · exact .inl List.mem_cons_self
    · rw [factors_eq] at isFactor
      obtain ⟨⟨q, n⟩, -, rfl⟩ := List.mem_map.1 isFactor
      rcases mem_symbolPower inside with letter | raised
      · exact .inr (.inr ⟨q, letter⟩)
      · exact .inr (.inl raised)
  rw [fraction_eq, List.mem_append, numerator] at h
  rcases h with above | below
  · split at above
    · exact .inl (List.mem_cons_of_mem _ (List.mem_append_left slash above))
    · exact joined above
  · split at below
    · cases below
    · rcases List.mem_append.1 below with inSlash | inDenominator
      · exact .inl (List.mem_cons_of_mem _ (List.mem_cons_of_mem _ inSlash))
      · exact joined inDenominator

/-- A quantity with an exponent is written, above or below the line. -/
theorem mem_fraction_of_exponent_ne_zero {c : Char} {q : BaseQuantity} {slash : List Char}
    (nonzero : d.exponent q ≠ 0) (letter : c ∈ symbol q) :
    c ∈ d.fraction symbol [joint] slash := by
  have written : ∀ {side : Int → Bool}, side (d.exponent q) = true →
      d.factors symbol side ≠ [] ∧ c ∈ [joint].intercalate (d.factors symbol side) := by
    intro side isThere
    have term : symbolPower (symbol q) (d.exponent q).natAbs ∈ d.factors symbol side := by
      rw [factors_eq]
      exact List.mem_map.2 ⟨(q, _), mem_terms.2 ⟨isThere, rfl⟩, rfl⟩
    refine ⟨List.ne_nil_of_mem term, mem_intercalate_of_mem term ?_⟩
    rw [symbolPower_eq]
    exact List.mem_append_left _ letter
  rw [fraction_eq, List.mem_append]
  rcases Int.lt_or_gt_of_ne nonzero with negative | positive
  · obtain ⟨some, mem⟩ := @written (fun e => decide (e < 0)) (decide_eq_true negative)
    rw [if_neg some]
    exact .inr (List.mem_append_right _ mem)
  · obtain ⟨some, mem⟩ := @written (fun e => decide (0 < e)) (decide_eq_true positive)
    rw [numerator, if_neg (by simpa using some)]
    exact .inl mem

end Legibility

/-! ### The two written forms -/

variable {a b : Dimension}

/-- Coherent units tell dimensions apart. -/
theorem siSymbol_inj (h : a.siSymbol = b.siSymbol) : a = b :=
  legible_unitSymbol.fraction_inj [] (by decide) (String.ofList_injective h)

/-- So do the letters of quantities. -/
theorem text_inj (h : a.text = b.text) : a = b :=
  legible_letter.fraction_inj [' '] (by decide) (String.ofList_injective h)

end Dimension

end Metrology
