/-
Module: Metrology.Proofs.UnitText
Layer: Proofs
Purpose: The text of a unit tells units apart, although it leaves out a factor of one and a missing
  dimension. A text with a space has both parts, and the space is the only one. Without a space it
  is a dimension in coherent units if there is a letter in it and a factor otherwise; the exception
  is `1`, the dimensionless unit with factor one, and no other factor is written so.
Imports: Metrology.MeasureUnit, Metrology.Proofs.DimensionText, Metrology.Proofs.ValueText
Main exports: Binary.numericEq_iff, Dimension.exists_letter_siSymbol,
  MeasureUnit.siSymbol_ne_text, MeasureUnit.text_inj, MeasureUnit.renderings_identify
-/
import Metrology.MeasureUnit
import Metrology.Proofs.DimensionText
import Metrology.Proofs.ValueText

namespace Metrology

/-- Among positive finite values numeric equality is identity. -/
theorem Binary.numericEq_iff {w : Width} {x y : Binary w} (hx : x.isPositiveFinite = true)
    (hy : y.isPositiveFinite = true) : x.numericEq y = true ↔ x = y := by
  cases x with
  | nan => cases hx
  | infinite s => cases hx
  | finite s m holds =>
      cases y with
      | nan => cases hy
      | infinite t => cases hy
      | finite t n holds' =>
          simp only [isPositiveFinite, Bool.and_eq_true, Bool.not_eq_true'] at hx hy
          simp [numericEq, compare?, hx.1, hy.1]

namespace Dimension

theorem siSymbol_dimensionless : dimensionless.siSymbol = "1" := by decide +kernel

theorem toList_siSymbol (d : Dimension) :
    d.siSymbol.toList = d.fraction BaseQuantity.unitSymbol ['·'] ['/'] :=
  String.toList_ofList

theorem space_notMem_siSymbol (d : Dimension) : ' ' ∉ d.siSymbol.toList := by
  rw [toList_siSymbol]
  intro space
  rcases mem_fraction space with sign | raised | ⟨q, inSymbol⟩
  · exact absurd sign (by decide)
  · exact absurd raised (by decide)
  · cases q <;> exact absurd inSymbol (by decide)

/-- Where there is a dimension, there is a letter. -/
theorem exists_letter_siSymbol {d : Dimension} (h : d ≠ dimensionless) :
    ∃ c ∈ d.siSymbol.toList, c.isDigit = false ∧ c ≠ '.' := by
  obtain ⟨q, nonzero⟩ : ∃ q, d.exponent q ≠ 0 := by
    refine Classical.byContradiction fun none => h (ext_exponent fun q => ?_)
    have zero : d.exponent q = 0 := Classical.not_not.1 fun nonzero => none ⟨q, nonzero⟩
    rw [zero]
    cases q <;> rfl
  have letter : ∀ q, ∃ c ∈ BaseQuantity.unitSymbol q, c.isDigit = false ∧ c ≠ '.' := by
    intro q
    cases q <;> simp [BaseQuantity.unitSymbol, Char.isDigit]
  obtain ⟨c, inSymbol, noDigit⟩ := letter q
  refine ⟨c, ?_, noDigit⟩
  rw [toList_siSymbol]
  exact mem_fraction_of_exponent_ne_zero nonzero inSymbol

end Dimension

namespace MeasureUnit

variable {u v : MeasureUnit}

theorem space_notMem_factor (valid : u.Valid) : ' ' ∉ u.factor.text.toList := by
  intro space
  rcases Binary.mem_text valid space with digit | point
  · cases digit
  · exact absurd point (by decide)

/-- No dimension is written like a factor that is not left out. -/
theorem siSymbol_ne_text {d : Dimension} (valid : v.Valid) (notOne : v.factor ≠ .one) :
    d.siSymbol ≠ v.factor.text := by
  intro same
  by_cases none : d = .dimensionless
  · have one : (Binary.one : Double).text = "1" := by decide +kernel
    rw [none, Dimension.siSymbol_dimensionless, ← one] at same
    exact notOne (Binary.text_inj same).symm
  · obtain ⟨c, mem, noDigit, noPoint⟩ := Dimension.exists_letter_siSymbol none
    rw [same] at mem
    rcases Binary.mem_text valid mem with digit | point
    · rw [digit] at noDigit
      cases noDigit
    · exact noPoint point

/-- The three ways in which a unit is written. -/
theorem text_cases (valid : u.Valid) :
    (u.factor = .one ∧ u.text = u.dimension.siSymbol) ∨
      (u.factor ≠ .one ∧ u.dimension = .dimensionless ∧ u.text = u.factor.text) ∨
      u.text.toList = u.factor.text.toList ++ ' ' :: u.dimension.siSymbol.toList := by
  by_cases one : u.factor = .one
  · have shown := (Binary.numericEq_iff valid Binary.isPositiveFinite_one).2 one
    exact .inl ⟨one, by rw [text, if_pos shown]⟩
  · have shown := mt (Binary.numericEq_iff valid Binary.isPositiveFinite_one).1 one
    refine .inr ?_
    by_cases none : u.dimension = .dimensionless
    · refine .inl ⟨one, none, ?_⟩
      rw [text, if_neg shown, if_pos (by simp [isDimensionless, Dimension.isDimensionless, none])]
    · refine .inr ?_
      rw [text, if_neg shown, if_neg (by simp [isDimensionless, Dimension.isDimensionless, none])]
      simp

theorem eq_of_parts (dimension : u.dimension = v.dimension) (factor : u.factor = v.factor) :
    u = v := by
  cases u
  cases v
  simp_all

/-- A text that is only a dimension or only a factor differs from one with both parts. -/
theorem text_ne_of_parts (valid : u.Valid)
    (onePart : u.text = u.dimension.siSymbol ∨ u.text = u.factor.text)
    (bothParts : v.text.toList = v.factor.text.toList ++ ' ' :: v.dimension.siSymbol.toList) :
    u.text ≠ v.text := by
  intro same
  have space : ' ' ∈ u.text.toList := by simp [same, bothParts]
  rcases onePart with part | part
  · exact Dimension.space_notMem_siSymbol u.dimension (part ▸ space)
  · exact space_notMem_factor valid (part ▸ space)

/-- Units with the same text are the same. -/
theorem text_inj (hu : u.Valid) (hv : v.Valid) (h : u.text = v.text) : u = v := by
  rcases text_cases hu with ⟨oneU, textU⟩ | ⟨notOneU, noneU, textU⟩ | textU
  · rcases text_cases hv with ⟨oneV, textV⟩ | ⟨notOneV, noneV, textV⟩ | textV
    · rw [textU, textV] at h
      exact eq_of_parts (Dimension.siSymbol_inj h) (oneU.trans oneV.symm)
    · rw [textU, textV] at h
      exact absurd h (siSymbol_ne_text hv notOneV)
    · exact absurd h (text_ne_of_parts hu (.inl textU) textV)
  · rcases text_cases hv with ⟨oneV, textV⟩ | ⟨notOneV, noneV, textV⟩ | textV
    · rw [textU, textV] at h
      exact absurd h.symm (siSymbol_ne_text hu notOneU)
    · rw [textU, textV] at h
      exact eq_of_parts (noneU.trans noneV.symm) (Binary.text_inj h)
    · exact absurd h (text_ne_of_parts hu (.inr textU) textV)
  · rcases text_cases hv with ⟨oneV, textV⟩ | ⟨notOneV, noneV, textV⟩ | textV
    · exact absurd h.symm (text_ne_of_parts hv (.inl textV) textU)
    · exact absurd h.symm (text_ne_of_parts hv (.inr textV) textU)
    · -- the space is the only one, so both sides of it are the same
      have split := congrArg String.toList h
      rw [textU, textV] at split
      obtain ⟨factor, -, dimension⟩ := (List.append_cons_inj_of_notMem
        (space_notMem_factor hu) (Dimension.space_notMem_siSymbol u.dimension)).1 split
      exact eq_of_parts (Dimension.siSymbol_inj (String.toList_injective dimension))
        (Binary.text_inj (String.toList_injective factor))

theorem numericEq_iff (hu : u.Valid) (hv : v.Valid) : u.numericEq v = true ↔ u = v := by
  rw [numericEq, Bool.and_eq_true, decide_eq_true_eq, Binary.numericEq_iff hu hv]
  cases u
  cases v
  simp

/-- Renderings identify what they render: no two dimensions share a written form, and two units with
    positive finite factors share their text exactly if they are structurally the same, which is
    exactly if they are numerically equal. -/
theorem renderings_identify :
    (∀ a b : Dimension, a.siSymbol = b.siSymbol → a = b) ∧
      (∀ a b : Dimension, a.text = b.text → a = b) ∧
      ∀ u v : MeasureUnit, u.Valid → v.Valid →
        (u.text = v.text ↔ u.sameAs v = true) ∧ (u.sameAs v = true ↔ u.numericEq v = true) := by
  refine ⟨fun a b => Dimension.siSymbol_inj, fun a b => Dimension.text_inj, ?_⟩
  intro u v hu hv
  refine ⟨?_, ?_⟩
  · rw [sameAs_iff]
    exact ⟨text_inj hu hv, fun same => by rw [same]⟩
  · rw [sameAs_iff, numericEq_iff hu hv]

/-- Twelve inches come out one step below a foot, and are written so. -/
theorem renderings_identify_foot :
    let foot : MeasureUnit := ⟨.base .length, Decimal.toBinary .double false ⟨3048, -4⟩⟩
    let inches : MeasureUnit :=
      ⟨.base .length, .ofNat 12 * Decimal.toBinary .double false ⟨254, -4⟩⟩
    foot.Valid ∧ inches.Valid ∧ foot.text ≠ inches.text ∧ foot.numericEq inches = false ∧
      (Dimension.force.siSymbol = "kg·m/s²" ∧ Dimension.force = .ofList 1 (-2) 1 0 0) ∧
      (Dimension.force.text = "M L / T²" ∧ Dimension.force = .ofList 1 (-2) 1 0 0) := by
  intro foot inches
  have hu : foot.Valid := by decide +kernel
  have hv : inches.Valid := by decide +kernel
  have different : foot.sameAs inches = false := by decide +kernel
  obtain ⟨symbols, letters, units⟩ := renderings_identify
  obtain ⟨texts, numbers⟩ := units foot inches hu hv
  refine ⟨hu, hv, ?_, ?_, ⟨by decide +kernel, symbols _ _ rfl⟩, by decide +kernel,
    letters _ _ rfl⟩
  · rw [Ne, texts, different]
    exact Bool.false_ne_true
  · rw [← Bool.not_eq_true, ← numbers, different]
    exact Bool.false_ne_true

end MeasureUnit

end Metrology
