/-
Module: Metrology.Proofs.EvaluationFaults
Layer: Proofs
Purpose: When an evaluation ends in a fault and not in a diagnosed error. Arithmetic in formulas is
  checked, but a prefix before a name is applied by the unchecked scaling; the multiplier is always
  fine, so what can go wrong is the scaled factor. With valid units a formula is at fault exactly
  when it reaches a prefixed name whose scaled factor overflows or vanishes, and over the predefined
  units none does.
Imports: Metrology.Proofs.EvaluatorFold, Metrology.Proofs.GrammarRun,
  Metrology.Proofs.BinaryExact
Main exports: SymbolTable.Valid, Evaluator.Valid, Evaluator.Reaches, Evaluator.fold_eq_fault_iff,
  Resolution.unit_prefixed_eq_error_iff, Evaluator.evaluate_eq_fault_iff,
  Evaluator.evaluateWith_nil_ne_fault
-/
import Metrology.Proofs.EvaluatorFold
import Metrology.Proofs.GrammarRun
import Metrology.Proofs.BinaryExact

namespace Metrology

open Formula (Expr Operator Error Token)

/-! ### Valid tables -/

namespace SymbolTable

variable {table : SymbolTable} {pairs : List (String × MeasureUnit)}

/-- What a name is bound to after some definitions is from one of them, or was there before. -/
theorem lookup?_extend {name : String} {u : MeasureUnit}
    (h : (table.extend pairs).lookup? name = some u) :
    (name, u) ∈ pairs ∨ table.lookup? name = some u := by
  induction pairs generalizing table with
  | nil => exact .inr h
  | cons pair pairs ih =>
      obtain ⟨key, v⟩ := pair
      rcases ih h with later | before
      · exact .inl (List.mem_cons_of_mem _ later)
      · rw [lookup?_define] at before
        split at before
        · next same =>
            cases before
            exact .inl (same ▸ List.mem_cons_self)
        · exact .inr before

/-- Every unit that a name is bound to has a positive finite factor. -/
def Valid (table : SymbolTable) : Prop := ∀ name u, table.lookup? name = some u → u.Valid

theorem valid_empty : empty.Valid := by
  intro name u bound
  cases bound

theorem Valid.extend (h : table.Valid) (units : ∀ pair ∈ pairs, pair.2.Valid) :
    (table.extend pairs).Valid := by
  intro name u bound
  rcases lookup?_extend bound with mem | before
  · exact units _ mem
  · exact h name u before

/-- The predefined names are the symbols and long names of predefined units. -/
theorem lookup?_defaults {name : String} {u : MeasureUnit} (h : defaults.lookup? name = some u) :
    ∃ c : CatalogUnit, c.unit = u ∧ (name = c.symbol ∨ name = c.name) := by
  rcases lookup?_extend h with mem | bound
  · obtain ⟨c, _, both⟩ := List.mem_flatMap.1 mem
    refine ⟨c, ?_⟩
    simp only [bindings, List.mem_cons, List.not_mem_nil, or_false] at both
    rcases both with ⟨rfl, rfl⟩ | ⟨rfl, rfl⟩
    · exact ⟨rfl, .inl rfl⟩
    · exact ⟨rfl, .inr rfl⟩
  · cases bound

theorem valid_defaults : defaults.Valid := by
  intro name u bound
  obtain ⟨c, rfl, -⟩ := lookup?_defaults bound
  exact c.valid_unit

end SymbolTable

/-! ### Reaching a name -/

namespace Evaluator

variable {e : Evaluator}

/-- The units of the table and those in front of it have positive finite factors. -/
def Valid (e : Evaluator) : Prop := e.table.Valid ∧ e.overrides.Valid

theorem Valid.of_lookup? (h : e.Valid) {name : String} {u : MeasureUnit}
    (bound : e.lookup? name = some u) : u.Valid := by
  unfold lookup? at bound
  split at bound
  · next found =>
      cases bound
      exact h.2 name _ found
  · exact h.1 name u bound

/-- Folding the tree comes to the name: everything to the left of it denotes something. -/
inductive Reaches (e : Evaluator) (name : String) : Expr → Prop where
  | here {span : Span} : Reaches e name (.name name span)
  | neg {operand : Expr} {span : Span} (inner : Reaches e name operand) :
      Reaches e name (.neg operand span)
  | left {op : Operator} {l r : Expr} {span : Span} (inner : Reaches e name l) :
      Reaches e name (.binary op l r span)
  | right {op : Operator} {l r : Expr} {span : Span} {value : Operand}
      (folded : e.fold l = .ok value) (inner : Reaches e name r) :
      Reaches e name (.binary op l r span)

/-- A fault comes from a name that the fold reaches. -/
theorem reaches_of_fold_eq_fault {expr : Expr} {f : Fault} (h : e.fold expr = .error (.fault f)) :
    ∃ name resolution, e.Reaches name expr ∧ e.resolve? name = some resolution ∧
      resolution.unit = .error f := by
  induction expr with
  | name text span =>
      obtain ⟨resolution, resolved, failed⟩ := fold_name_eq_fault_iff.1 h
      exact ⟨text, resolution, .here, resolved, failed⟩
  | number value span => cases h
  | neg operand span ih =>
      rw [fold_neg] at h
      rcases bind_eq_error_iff.1 h with failed | ⟨value, _, negated⟩
      · obtain ⟨name, resolution, reaches, found⟩ := ih failed
        exact ⟨name, resolution, .neg reaches, found⟩
      · obtain ⟨cause, _, same⟩ := mapError_eq_error_iff.1 negated
        cases same
  | binary op left right span ihLeft ihRight =>
      rw [fold_binary] at h
      rcases bind_eq_error_iff.1 h with failed | ⟨l, foldedLeft, rest⟩
      · obtain ⟨name, resolution, reaches, found⟩ := ihLeft failed
        exact ⟨name, resolution, .left reaches, found⟩
      rcases bind_eq_error_iff.1 rest with failed | ⟨r, _, applied⟩
      · obtain ⟨name, resolution, reaches, found⟩ := ihRight failed
        exact ⟨name, resolution, .right foldedLeft reaches, found⟩
      · obtain ⟨cause, _, same⟩ := mapError_eq_error_iff.1 applied
        cases same

/-- A faulty name that the fold reaches is its outcome. -/
theorem Reaches.fold_eq_fault {name : String} {expr : Expr} {resolution : Resolution} {f : Fault}
    (h : e.Reaches name expr) (resolved : e.resolve? name = some resolution)
    (failed : resolution.unit = .error f) : e.fold expr = .error (.fault f) := by
  induction h with
  | here => exact fold_name_eq_fault_iff.2 ⟨resolution, resolved, failed⟩
  | neg _ ih => rw [fold_neg, ih, Except.bind]
  | left _ ih => rw [fold_binary, ih, Except.bind]
  | right folded _ ih => rw [fold_binary, folded, Except.bind, ih, Except.bind]

theorem fold_eq_fault_iff {expr : Expr} {f : Fault} :
    e.fold expr = .error (.fault f) ↔
      ∃ name resolution, e.Reaches name expr ∧ e.resolve? name = some resolution ∧
        resolution.unit = .error f := by
  constructor
  · exact reaches_of_fold_eq_fault
  · rintro ⟨name, resolution, reaches, resolved, failed⟩
    exact reaches.fold_eq_fault resolved failed

/-- A formula is at fault exactly when its tree is. -/
theorem evaluate_eq_fault_iff_fold {formula : String} {f : Fault} :
    e.evaluate formula = .error (.fault f) ↔
      ∃ expr, Expr.parse formula = .ok expr ∧ e.fold expr = .error (.fault f) := by
  rw [evaluate_eq_error_iff]
  constructor
  · rintro (⟨cause, _, same⟩ | ⟨expr, parsed, failed | ⟨o, cause, _, _, same⟩⟩)
    · cases same
    · exact ⟨expr, parsed, failed⟩
    · cases same
  · rintro ⟨expr, parsed, failed⟩
    exact .inr ⟨expr, parsed, .inl failed⟩

end Evaluator

/-! ### Prefixes and factors -/

/-- The product of two positive finite values is one too, or has overflowed or vanished. -/
theorem Binary.mul_of_isPositiveFinite {w : Width} {a b : Binary w}
    (ha : a.isPositiveFinite = true) (hb : b.isPositiveFinite = true) :
    (a * b).isPositiveFinite = true ∨ a * b = .infinite false ∨ a * b = .zero false := by
  cases a with
  | nan => cases ha
  | infinite s => cases ha
  | finite s m holdsM =>
      cases b with
      | nan => cases hb
      | infinite t => cases hb
      | finite t n holdsN =>
          simp only [isPositiveFinite, Bool.and_eq_true, Bool.not_eq_true'] at ha hb
          obtain ⟨rfl, _⟩ := ha
          obtain ⟨rfl, _⟩ := hb
          change (ofRatio false (m * n) w.one).isPositiveFinite = true ∨
            (ofRatio false (m * n) w.one : Binary w) = .infinite false ∨
            (ofRatio false (m * n) w.one : Binary w) = .zero false
          generalize rounded : w.roundUnits (m * n) w.one = units
          simp only [ofRatio, rounded, ofRounded]
          split
          · next holds =>
              rcases Nat.eq_zero_or_pos units with rfl | pos
              · exact .inr (.inr rfl)
              · exact .inl (by simp [isPositiveFinite, Nat.ne_of_gt pos])
          · exact .inr (.inl rfl)

/-- A positive finite value has neither overflowed nor vanished. -/
theorem Binary.not_infinite_or_zero {w : Width} {x : Binary w}
    (positive : x.isPositiveFinite = true) : ¬(x = .infinite false ∨ x = .zero false) := by
  rintro (rfl | rfl)
  · cases positive
  · cases positive

theorem MetricPrefix.isPositiveFinite_multiplier (p : MetricPrefix) :
    p.multiplier.isPositiveFinite = true := by
  cases p <;> decide +kernel

/-- A prefix before a valid unit fails only when the scaled factor overflows or vanishes. -/
theorem Resolution.unit_prefixed_eq_error_iff {p : MetricPrefix} {base : MeasureUnit} {f : Fault}
    (valid : base.Valid) :
    (Resolution.prefixed p base).unit = .error f ↔
      f = .factorRange ∧ (base.factor * p.multiplier = .infinite false ∨
        base.factor * p.multiplier = .zero false) := by
  have multiplier := p.isPositiveFinite_multiplier
  simp only [unit, MeasureUnit.applyPrefix, MeasureUnit.scale, multiplier, if_true,
    MeasureUnit.create]
  rcases Binary.mul_of_isPositiveFinite valid multiplier with positive | overflow | vanished
  · simp only [positive, if_true, reduceCtorEq, false_iff, not_and]
    intro _
    exact Binary.not_infinite_or_zero positive
  · simp [overflow, Binary.isPositiveFinite, eq_comm]
  · simp [vanished, Binary.isPositiveFinite, Binary.zero, eq_comm]

/-! ### Formulas at fault -/

namespace Evaluator

variable {e : Evaluator}

/-- What a name is bound to under a prefix is bound under the rest of the name. -/
theorem lookup?_of_resolve?_prefixed {name : String} {p : MetricPrefix} {base : MeasureUnit}
    (h : e.resolve? name = some (.prefixed p base)) : ∃ rest, e.lookup? rest = some base := by
  rw [resolve?_eq_find?] at h
  unfold Resolution.find? at h
  split at h
  · cases h
  · split at h
    · next p' rest _ =>
        obtain ⟨found, bound, same⟩ := Option.map_eq_some_iff.1 h
        cases same
        exact ⟨_, bound⟩
    · cases h

/-- With valid units, a formula is at fault exactly when its tree reaches a prefixed name whose
    scaled factor overflows or vanishes; and this is the only fault there is. -/
theorem evaluate_eq_fault_iff (valid : e.Valid) {formula : String} {f : Fault} :
    e.evaluate formula = .error (.fault f) ↔
      f = .factorRange ∧ ∃ expr, Expr.parse formula = .ok expr ∧
        ∃ name p base, e.Reaches name expr ∧ e.resolve? name = some (.prefixed p base) ∧
          (base.factor * p.multiplier = .infinite false ∨
            base.factor * p.multiplier = .zero false) := by
  rw [evaluate_eq_fault_iff_fold]
  constructor
  · rintro ⟨expr, parsed, failed⟩
    obtain ⟨name, resolution, reaches, resolved, failed⟩ := fold_eq_fault_iff.1 failed
    cases resolution with
    | exact u => cases failed
    | prefixed p base =>
        obtain ⟨rest, bound⟩ := lookup?_of_resolve?_prefixed resolved
        obtain ⟨rfl, factor⟩ :=
          (Resolution.unit_prefixed_eq_error_iff (valid.of_lookup? bound)).1 failed
        exact ⟨rfl, expr, parsed, name, p, base, reaches, resolved, factor⟩
  · rintro ⟨rfl, expr, parsed, name, p, base, reaches, resolved, factor⟩
    obtain ⟨rest, bound⟩ := lookup?_of_resolve?_prefixed resolved
    have failed :=
      (Resolution.unit_prefixed_eq_error_iff (valid.of_lookup? bound)).2 ⟨rfl, factor⟩
    exact ⟨expr, parsed, reaches.fold_eq_fault resolved failed⟩

/-- A length of so many metres, as a power of ten. -/
def lengthOfPower (power : Int) : MeasureUnit :=
  ⟨.base .length, Decimal.toBinary .double false ⟨1, power⟩⟩

/-- A prefix before a name that stands for `1e-320` metres leaves nothing. -/
theorem evaluate_eq_fault_iff_tiny :
    ((ofTable .empty).extend [("tiny", lengthOfPower (-320))]).Valid ∧
      ((ofTable .empty).extend [("tiny", lengthOfPower (-320))]).evaluate "ptiny" =
        .error (.fault .factorRange) := by
  have valid : ((ofTable .empty).extend [("tiny", lengthOfPower (-320))]).Valid := by
    refine ⟨SymbolTable.valid_empty, SymbolTable.valid_empty.extend fun pair mem => ?_⟩
    obtain rfl := List.mem_singleton.1 mem
    decide +kernel
  have lexed : Token.lex "ptiny" =
      .ok [⟨.name, ⟨0, 5⟩, "ptiny"⟩, ⟨.finish, .point 5, ""⟩] := by decide +kernel
  have resolved : ((ofTable .empty).extend [("tiny", lengthOfPower (-320))]).resolve? "ptiny" =
      some (.prefixed .pico (lengthOfPower (-320))) := by decide +kernel
  have vanished : (lengthOfPower (-320)).factor * MetricPrefix.pico.multiplier = .zero false := by
    decide +kernel
  exact ⟨valid, (evaluate_eq_fault_iff valid).2
    ⟨rfl, _, Formula.parse_of_lex_name lexed rfl rfl, "ptiny", .pico, lengthOfPower (-320), .here,
      resolved, .inr vanished⟩⟩

/-- The definition of `1e308` metres is valid, and yet a formula over it is at fault. -/
theorem evaluateWith_tera_huge :
    (lengthOfPower 308).Valid ∧
      evaluateWith [("big", lengthOfPower 308)] "Tbig" = .error (.fault .factorRange) := by
  have lexed : Token.lex "Tbig" =
      .ok [⟨.name, ⟨0, 4⟩, "Tbig"⟩, ⟨.finish, .point 4, ""⟩] := by decide +kernel
  have resolved : ((ofTable .defaults).extend [("big", lengthOfPower 308)]).resolve? "Tbig" =
      some (.prefixed .tera (lengthOfPower 308)) := by decide +kernel
  have failed : (Resolution.prefixed .tera (lengthOfPower 308)).unit = .error .factorRange := by
    decide +kernel
  exact ⟨by decide +kernel, evaluate_eq_fault_iff_fold.2
    ⟨_, Formula.parse_of_lex_name lexed rfl rfl, Reaches.here.fold_eq_fault resolved failed⟩⟩

/-- Over the predefined units alone, no formula is at fault. -/
theorem evaluateWith_nil_ne_fault (formula : String) (f : Fault) :
    evaluateWith [] formula ≠ .error (.fault f) := by
  intro h
  obtain ⟨expr, _, failed⟩ := evaluate_eq_fault_iff_fold.1 h
  obtain ⟨name, resolution, _, resolved, failed⟩ := fold_eq_fault_iff.1 failed
  cases resolution with
  | exact u => cases failed
  | prefixed p base =>
      obtain ⟨rest, bound⟩ := lookup?_of_resolve?_prefixed resolved
      obtain ⟨c, rfl, -⟩ := SymbolTable.lookup?_defaults bound
      -- forty-odd values are looked at, and not the products of all of them
      have factors : ∀ c ∈ CatalogUnit.all, c.unit.factor.Near 20 := by decide +kernel
      have multipliers : ∀ p ∈ MetricPrefix.all, p.multiplier.Near 40 := by decide +kernel
      have positive := Binary.isPositiveFinite_mul_of_near (factors c c.mem_all)
        (multipliers p p.mem_all) (by decide) (by decide)
      have outside := (Resolution.unit_prefixed_eq_error_iff c.valid_unit).1 failed
      exact Binary.not_infinite_or_zero positive outside.2

end Evaluator

end Metrology
