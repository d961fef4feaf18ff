/-
Module: Metrology.Proofs.SessionValidity
Layer: Proofs
Purpose: Positive finite factors as an invariant of sessions. Units come into a session from
  outside, where their factor is tested, out of formulas, and out of the checked algebra; they are
  bound to names in the table and in front of it, one by one, several at once, or by a
  configuration. Numbers inside a formula may be zero, negative, infinite or no numbers at all, and
  yet wherever one becomes a unit or goes into one, the result is tested. So whatever the order of
  the steps, every unit that is stored, denoted or computed has a positive finite factor.
Imports: Metrology.Proofs.ConfiguredTable, Metrology.Proofs.EvaluationFaults,
  Metrology.Proofs.OperandOutcomes
Main exports: SymbolTable.StoresValid, Operand.valid_of_apply, Evaluator.valid_of_evaluate,
  Evaluator.Obtains, Evaluator.Step, Evaluator.Reachable, Evaluator.positive_of_reachable
-/
import Metrology.Proofs.ConfiguredTable
import Metrology.Proofs.EvaluationFaults
import Metrology.Proofs.OperandOutcomes

namespace Metrology

open Formula (Expr Operator Error Token)

/-! ### Operations on operands -/

namespace Operand

variable {span exponentSpan : Span} {left right o : Operand}

/-- A unit has a positive finite factor; nothing is asked of a number. -/
def Valid : Operand → Prop
  | number _ => True
  | unit u => u.Valid

/-- A number becomes a unit only if it is positive and finite. -/
theorem valid_of_toUnit {u : MeasureUnit} (valid : o.Valid) (h : o.toUnit span = .ok u) :
    u.Valid := by
  cases o with
  | number k => exact MeasureUnit.valid_of_checkedScale (located_eq_ok_iff.1 h)
  | unit v =>
      cases h
      exact valid

/-- A sum of units is its left side. -/
theorem valid_of_combineTerms {operator : Formula.TermOperator} (valid : left.Valid)
    (h : combineTerms operator span left right = .ok o) : o.Valid := by
  obtain ⟨u, leftUnit, rest⟩ := bind_eq_ok_iff.1 h
  obtain ⟨v, _, compared⟩ := bind_eq_ok_iff.1 rest
  split at compared
  · cases compared
    exact valid_of_toUnit valid leftUnit
  · cases compared

/-- Only a sum hands an operand on as it is, so only there does an operand's validity matter. -/
theorem valid_of_apply {op : Operator} (valid : left.Valid)
    (h : apply op exponentSpan span left right = .ok o) : o.Valid := by
  obtain ⟨f, outcome, same⟩ := apply_outcome op left right
  rw [same] at h
  cases outcome with
  | number k =>
      cases h
      trivial
  | made result made =>
      obtain ⟨u, located, rfl⟩ := unit_map_eq_ok_iff.1 h
      exact made u (located_eq_ok_iff.1 located)
  | terms operator => exact valid_of_combineTerms valid h
  | badExponent found => cases h
  | largeExponent => cases h

end Operand

/-! ### Formulas -/

namespace Evaluator

variable {e : Evaluator}

theorem Valid.of_resolve? (valid : e.Valid) {name : String} {resolution : Resolution}
    {u : MeasureUnit} (resolved : e.resolve? name = some resolution)
    (h : resolution.unit = .ok u) : u.Valid := by
  cases resolution with
  | prefixed p base => exact MeasureUnit.valid_of_applyPrefix h
  | exact v =>
      cases h
      rw [resolve?_eq_find?] at resolved
      unfold Resolution.find? at resolved
      split at resolved
      · next bound =>
          cases resolved
          exact valid.of_lookup? bound
      · split at resolved
        · obtain ⟨base, _, same⟩ := Option.map_eq_some_iff.1 resolved
          cases same
        · cases resolved

theorem valid_of_fold (valid : e.Valid) {expr : Expr} {o : Operand} (h : e.fold expr = .ok o) :
    o.Valid := by
  induction expr generalizing o with
  | name text span =>
      obtain ⟨resolution, u, resolved, made, rfl⟩ := fold_name_eq_ok_iff.1 h
      exact valid.of_resolve? resolved made
  | number value span =>
      cases h
      trivial
  | neg operand span ih =>
      rw [fold_neg] at h
      obtain ⟨inner, _, negated⟩ := bind_eq_ok_iff.1 h
      obtain ⟨k, _, rfl⟩ := Operand.negate_eq_ok_iff.1 (mapError_eq_ok_iff.1 negated)
      trivial
  | binary op left right span ihLeft _ =>
      rw [fold_binary] at h
      obtain ⟨l, foldedLeft, rest⟩ := bind_eq_ok_iff.1 h
      obtain ⟨r, _, applied⟩ := bind_eq_ok_iff.1 rest
      exact Operand.valid_of_apply (ihLeft foldedLeft) (mapError_eq_ok_iff.1 applied)

/-- Over valid units, a formula denotes valid units only. -/
theorem valid_of_evaluate (valid : e.Valid) {formula : String} {u : MeasureUnit}
    (h : e.evaluate formula = .ok u) : u.Valid := by
  obtain ⟨expr, o, _, folded, converted⟩ := evaluate_eq_ok_iff.1 h
  exact Operand.valid_of_toUnit (valid_of_fold valid folded) converted

end Evaluator

/-! ### Tables -/

namespace SymbolTable

variable {table : SymbolTable} {name : String} {u : MeasureUnit}

/-- Every stored unit has a positive finite factor, also one that no look-up could come to. -/
def StoresValid (table : SymbolTable) : Prop := ∀ entry ∈ table.entries, entry.2.Valid

theorem mem_of_lookupIn {entries : List (String × MeasureUnit)}
    (h : lookupIn name entries = some u) : (name, u) ∈ entries := by
  induction entries with
  | nil => cases h
  | cons first rest ih =>
      unfold lookupIn at h
      split at h
      · next same =>
          cases h
          subst same
          exact List.mem_cons_self
      · exact List.mem_cons_of_mem _ (ih h)

/-- What a table finds, it stores. -/
theorem StoresValid.valid (h : table.StoresValid) : table.Valid := by
  intro name u bound
  exact h (name, u) (mem_of_lookupIn bound)

theorem storesValid_empty : empty.StoresValid := by
  intro entry mem
  cases mem

theorem StoresValid.define (h : table.StoresValid) (valid : u.Valid) :
    (table.define name u).StoresValid := by
  intro entry mem
  rcases mem_insertIn mem with rfl | old
  · exact valid
  · exact h entry old

theorem StoresValid.extend {pairs : List (String × MeasureUnit)} (h : table.StoresValid)
    (valid : ∀ pair ∈ pairs, pair.2.Valid) : (table.extend pairs).StoresValid := by
  induction pairs generalizing table with
  | nil => exact h
  | cons pair pairs ih =>
      obtain ⟨first, others⟩ := List.forall_mem_cons.1 valid
      exact ih (h.define first) others

theorem storesValid_defaults : defaults.StoresValid := by
  apply storesValid_empty.extend
  intro pair mem
  obtain ⟨c, _, both⟩ := List.mem_flatMap.1 mem
  simp only [bindings, List.mem_cons, List.not_mem_nil, or_false] at both
  rcases both with rfl | rfl
  · exact c.valid_unit
  · exact c.valid_unit

end SymbolTable

/-! ### Configurations -/

namespace Config

theorem storesValid_of_defineUnit {table next : SymbolTable} {d : UnitDefinition}
    (valid : table.StoresValid) (h : defineUnit table d = .ok next) : next.StoresValid := by
  obtain ⟨-, unit, evaluated, rfl⟩ := defineUnit_eq_ok_iff.1 h
  apply valid.define
  exact Evaluator.valid_of_evaluate ⟨valid.valid, SymbolTable.valid_empty⟩ evaluated

/-- A configuration's table is made of the predefined units, one definition at a time. -/
theorem storesValid_of_symbolTable {config : Config} {table : SymbolTable}
    (h : config.symbolTable = .ok table) : table.StoresValid :=
  foldlM_preserves (fun _ _ _ valid stepped => storesValid_of_defineUnit valid stepped)
    SymbolTable.storesValid_defaults h

end Config

/-! ### Sessions -/

namespace Evaluator

/-- The units that can be had in a session: given from outside and tested, stored in the table or in
    front of it, denoted by a formula, or computed from such units by the checked algebra. -/
inductive Obtains (s : Evaluator) : MeasureUnit → Prop where
  | given {d : Dimension} {factor : Double} {u : MeasureUnit}
      (created : MeasureUnit.checkedCreate d factor = .ok u) : Obtains s u
  | stored {name : String} {u : MeasureUnit} (mem : (name, u) ∈ s.table.entries) : Obtains s u
  | overriding {name : String} {u : MeasureUnit} (mem : (name, u) ∈ s.overrides.entries) :
      Obtains s u
  | denoted {formula : String} {u : MeasureUnit} (evaluated : s.evaluate formula = .ok u) :
      Obtains s u
  | product {u v w : MeasureUnit} (left : Obtains s u) (right : Obtains s v)
      (computed : u.checkedMultiply v = .ok w) : Obtains s w
  | quotient {u v w : MeasureUnit} (left : Obtains s u) (right : Obtains s v)
      (computed : u.checkedDivide v = .ok w) : Obtains s w
  | power {u w : MeasureUnit} {n : Int} (base : Obtains s u)
      (computed : u.checkedRaise n = .ok w) : Obtains s w
  | multiple {u w : MeasureUnit} {k : Double} (base : Obtains s u)
      (computed : u.checkedScale k = .ok w) : Obtains s w

/-- One step of a session. What fails is no step: it leaves the session as it was. -/
inductive Step : Evaluator → Evaluator → Prop where
  | define {s : Evaluator} {name : String} {u : MeasureUnit} (unit : s.Obtains u) :
      Step s { s with table := s.table.define name u }
  | extend {s : Evaluator} {pairs : List (String × MeasureUnit)}
      (units : ∀ pair ∈ pairs, s.Obtains pair.2) :
      Step s { s with table := s.table.extend pairs }
  | override {s : Evaluator} {name : String} {u : MeasureUnit} (unit : s.Obtains u) :
      Step s (Evaluator.define s name u)
  | overrideAll {s : Evaluator} {pairs : List (String × MeasureUnit)}
      (units : ∀ pair ∈ pairs, s.Obtains pair.2) : Step s (Evaluator.extend s pairs)
  | load {s : Evaluator} {config : Config} {table : SymbolTable}
      (loaded : config.symbolTable = .ok table) : Step s { s with table := table }
  | renew {s : Evaluator} : Step s (ofTable s.table)

/-- The sessions that begin with the predefined units, or with none, and go on step by step. -/
inductive Reachable : Evaluator → Prop where
  | defaults : Reachable (ofTable .defaults)
  | empty : Reachable (ofTable .empty)
  | step {s t : Evaluator} (before : Reachable s) (next : Step s t) : Reachable t

/-- All that a session stores has positive finite factors. -/
def StoresValid (s : Evaluator) : Prop := s.table.StoresValid ∧ s.overrides.StoresValid

variable {s t : Evaluator} {u : MeasureUnit}

theorem StoresValid.valid (h : s.StoresValid) : s.Valid := ⟨h.1.valid, h.2.valid⟩

/-- From valid units only valid units are had. -/
theorem StoresValid.of_obtains (h : s.StoresValid) (obtained : s.Obtains u) : u.Valid := by
  cases obtained with
  | given created => exact MeasureUnit.valid_of_checkedCreate created
  | stored mem => exact h.1 _ mem
  | overriding mem => exact h.2 _ mem
  | denoted evaluated => exact valid_of_evaluate h.valid evaluated
  | product _ _ computed => exact MeasureUnit.valid_of_checkedMultiply computed
  | quotient _ _ computed => exact MeasureUnit.valid_of_checkedDivide computed
  | power _ computed => exact MeasureUnit.valid_of_checkedRaise computed
  | multiple _ computed => exact MeasureUnit.valid_of_checkedScale computed

theorem Step.storesValid (step : Step s t) (h : s.StoresValid) : t.StoresValid := by
  cases step with
  | define unit => exact ⟨h.1.define (h.of_obtains unit), h.2⟩
  | extend units => exact ⟨h.1.extend fun pair mem => h.of_obtains (units pair mem), h.2⟩
  | override unit => exact ⟨h.1, h.2.define (h.of_obtains unit)⟩
  | overrideAll units => exact ⟨h.1, h.2.extend fun pair mem => h.of_obtains (units pair mem)⟩
  | load loaded => exact ⟨Config.storesValid_of_symbolTable loaded, h.2⟩
  | renew => exact ⟨h.1, SymbolTable.storesValid_empty⟩

theorem Reachable.storesValid (run : Reachable s) : s.StoresValid := by
  induction run with
  | defaults => exact ⟨SymbolTable.storesValid_defaults, SymbolTable.storesValid_empty⟩
  | empty => exact ⟨SymbolTable.storesValid_empty, SymbolTable.storesValid_empty⟩
  | step _ next ih => exact next.storesValid ih

/-- After any steps of a session, every unit that it stores, and every unit that a formula or the
    checked algebra then gives, has a positive finite factor. -/
theorem positive_of_reachable (run : Reachable s) (obtained : s.Obtains u) :
    u.factor.isPositiveFinite = true :=
  run.storesValid.of_obtains obtained

/-- An ell of 1.143 metres. -/
def ell : MeasureUnit := ⟨.base .length, Decimal.toBinary .double false ⟨1143, -3⟩⟩

/-- The predefined units and the ell. -/
def withEll : Evaluator :=
  { ofTable .defaults with table := SymbolTable.defaults.define "ell" ell }

/-- The ell is given from outside to a session that has loaded a configuration, and a thousand of
    them are denoted by a prefixed name. -/
theorem positive_of_reachable_ell :
    Reachable withEll ∧ withEll.Obtains ⟨.base .length, ell.factor * MetricPrefix.kilo.multiplier⟩ ∧
      (ell.factor * MetricPrefix.kilo.multiplier).isPositiveFinite = true := by
  have loaded : Step (ofTable .empty) (ofTable .defaults) :=
    .load (show Config.default.symbolTable = .ok .defaults from rfl)
  have created : MeasureUnit.checkedCreate ell.dimension ell.factor = .ok ell := by decide +kernel
  have run : Reachable withEll :=
    (Reachable.empty.step loaded).step (@Step.define _ "ell" _ (.given created))
  have lexed : Token.lex "kell" =
      .ok [⟨.name, ⟨0, 4⟩, "kell"⟩, ⟨.finish, .point 4, ""⟩] := by decide +kernel
  have evaluated : withEll.evaluate "kell" =
      .ok ⟨.base .length, ell.factor * MetricPrefix.kilo.multiplier⟩ := by
    rw [evaluate_eq_of_parse (Formula.parse_of_lex_name lexed rfl rfl)]
    decide +kernel
  exact ⟨run, .denoted evaluated, positive_of_reachable run (.denoted evaluated)⟩

end Evaluator

end Metrology
