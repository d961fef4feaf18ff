/-
Module: Metrology.Proofs.DefinitionReach
Layer: Proofs
Purpose: How far a definition reaches. A name is looked up as it is written and, where it is not
  bound, without one prefix; so a definition can change what stands for its own name and for the
  names that are one prefix before it, and no others. A formula without such names denotes the same
  before and after, whether the name is defined in the table or in front of it.
Imports: Metrology.Proofs.NameSubstitution
Main exports: InReach, Evaluator.AgreeOff, Evaluator.AgreeOff.resolve?_eq,
  Evaluator.not_inReach_iff, Evaluator.AgreeOff.evaluate_eq,
  Evaluator.evaluate_define_of_not_inReach
-/
import Metrology.Proofs.NameSubstitution

namespace Metrology

/-- A definition of the name `defined` reaches `name`: they are the same, or one prefix comes
    before. -/
def InReach (defined name : String) : Prop :=
  name = defined ∨ ∃ p : MetricPrefix, name.toList = p.symbol :: defined.toList

instance (defined name : String) : Decidable (InReach defined name) :=
  decidable_of_iff
    (name = defined ∨ ∃ p ∈ MetricPrefix.all, name.toList = p.symbol :: defined.toList) <| by
    simp [InReach, MetricPrefix.mem_all]

namespace Evaluator

open Formula (Expr Token)

variable {e e' : Evaluator} {defined : String}

/-- The evaluators bind all names alike, but for one. -/
def AgreeOff (defined : String) (e e' : Evaluator) : Prop :=
  ∀ name, name ≠ defined → e.lookup? name = e'.lookup? name

theorem agreeOff_define (e : Evaluator) (defined : String) (u : MeasureUnit) :
    AgreeOff defined (e.define defined u) e := by
  intro name other
  rw [lookup?_define, if_neg (Ne.symm other)]

theorem agreeOff_define_table (e : Evaluator) (defined : String) (u : MeasureUnit) :
    AgreeOff defined { e with table := e.table.define defined u } e := by
  intro name other
  simp only [lookup?, SymbolTable.lookup?_define, if_neg (Ne.symm other)]

/-- What is out of reach stands for the same. -/
theorem AgreeOff.resolve?_eq (h : AgreeOff defined e e') {name : String}
    (outside : ¬InReach defined name) : e.resolve? name = e'.resolve? name := by
  rw [resolve?_eq_find?, resolve?_eq_find?]
  refine Resolution.find?_congr (h name fun same => outside (.inl same)) fun p rest shape => ?_
  refine h _ fun same => outside (.inr ⟨p, ?_⟩)
  rw [shape, ← same, String.toList_ofList]

/-- The reach is as small as can be: on the names outside it no definition of a name that is not
    empty has any effect, and on every name inside it some definition has. -/
theorem not_inReach_iff (nonempty : defined ≠ "") {name : String} :
    ¬InReach defined name ↔ ∀ (e : Evaluator) (u : MeasureUnit),
      (e.define defined u).resolve? name = e.resolve? name := by
  constructor
  · intro outside e u
    exact (agreeOff_define e defined u).resolve?_eq outside
  · intro unchanged reached
    have nothing : (ofTable .empty).resolve? name = none := by
      rw [resolve?_ofTable, SymbolTable.resolve?, Resolution.find?]
      cases MetricPrefix.split? name.toList <;> rfl
    have same := unchanged (ofTable .empty) .one
    rw [nothing] at same
    rcases reached with rfl | ⟨p, shape⟩
    · have found : ((ofTable .empty).define name .one).resolve? name = some (.exact .one) := by
        rw [resolve?_eq_find?, Resolution.find?_eq_exact_iff, lookup?_define, if_pos rfl]
      rw [same] at found
      cases found
    · have apart : defined ≠ name := by
        rintro rfl
        exact absurd (congrArg List.length shape) (by simp)
      have found : ((ofTable .empty).define defined .one).resolve? name =
          some (.prefixed p .one) := by
        rw [resolve?_eq_find?, Resolution.find?_eq_prefixed_iff, lookup?_define, if_neg apart]
        refine ⟨rfl, defined.toList, by simpa using nonempty, shape, ?_⟩
        rw [String.ofList_toList, lookup?_define, if_pos rfl]
      rw [same] at found
      cases found

/-- A formula whose names are out of reach denotes the same, or fails alike. -/
theorem AgreeOff.evaluate_eq (h : AgreeOff defined e e') {formula : String}
    (outside : ∀ tokens, Token.lex formula = .ok tokens →
      ∀ token ∈ tokens, token.kind = .name → ¬InReach defined token.text) :
    e.evaluate formula = e'.evaluate formula := by
  refine evaluate_congr fun expr parsed name mem => ?_
  obtain ⟨tokens, lexed, token, inside, kind, rfl⟩ := Formula.exists_token_of_mem_names parsed mem
  exact h.resolve?_eq (outside tokens lexed token inside kind)

/-- A definition has no effect on formulas whose names are out of its reach: they denote the same
    unit or fail with the same error, whether the name is defined in the table or in front of it. -/
theorem evaluate_define_of_not_inReach (e : Evaluator) (defined : String) (u : MeasureUnit)
    {formula : String}
    (outside : ∀ tokens, Token.lex formula = .ok tokens →
      ∀ token ∈ tokens, token.kind = .name → ¬InReach defined token.text) :
    { e with table := e.table.define defined u }.evaluate formula = e.evaluate formula ∧
    (e.define defined u).evaluate formula = e.evaluate formula :=
  ⟨(agreeOff_define_table e defined u).evaluate_eq outside,
    (agreeOff_define e defined u).evaluate_eq outside⟩

/-- Two prefixes are out of reach: a unit `ile` makes no difference to milli-miles. -/
theorem evaluate_define_of_not_inReach_mile :
    (∀ tokens, Token.lex "mmile" = .ok tokens →
      ∀ token ∈ tokens, token.kind = .name → ¬InReach "ile" token.text) ∧
    { ofTable .defaults with table := SymbolTable.defaults.define "ile" .one }.evaluate "mmile" =
      .ok ⟨.base .length, CatalogUnit.mile.unit.factor * MetricPrefix.milli.multiplier⟩ ∧
    ((ofTable .defaults).define "ile" .one).evaluate "mmile" =
      .ok ⟨.base .length, CatalogUnit.mile.unit.factor * MetricPrefix.milli.multiplier⟩ := by
  have lexed : Token.lex "mmile" = .ok [⟨.name, ⟨0, 5⟩, "mmile"⟩, ⟨.finish, .point 5, ""⟩] := by
    decide +kernel
  have outside : ∀ tokens, Token.lex "mmile" = .ok tokens →
      ∀ token ∈ tokens, token.kind = .name → ¬InReach "ile" token.text := by
    intro tokens found
    rw [lexed] at found
    cases found
    decide +kernel
  have before : (ofTable .defaults).evaluate "mmile" =
      .ok ⟨.base .length, CatalogUnit.mile.unit.factor * MetricPrefix.milli.multiplier⟩ := by
    rw [evaluate_eq_of_parse (Formula.parse_of_lex_name lexed rfl rfl)]
    decide +kernel
  obtain ⟨inTable, inFront⟩ := evaluate_define_of_not_inReach (ofTable .defaults) "ile" .one outside
  exact ⟨outside, inTable.trans before, inFront.trans before⟩

end Evaluator

end Metrology
