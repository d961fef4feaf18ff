/-
Module: Metrology.Proofs.DefinitionAgreement
Layer: Proofs
Purpose: Definitions on the command line against definitions in a configuration. The command line
  keeps the predefined table and puts each unit in front of it; a configuration puts each unit into
  its table and starts over. The names stay bound alike, so every formula denotes the same in both,
  those of the further definitions included, and the first one that fails is the same.
Imports: Metrology.CommandLine.Run, Metrology.Proofs.ConfiguredTable,
  Metrology.Proofs.ErrorLocalisation
Main exports: Evaluator.Mirrors, CommandLine.pairs, CommandLine.FailAt, CommandLine.define_in_step,
  CommandLine.defineAll_in_step, CommandLine.definitions_agree
-/
import Metrology.CommandLine.Run
import Metrology.Proofs.ConfiguredTable
import Metrology.Proofs.ErrorLocalisation

namespace Metrology

/-! ### Names bound alike -/

namespace Evaluator

variable {e : Evaluator} {table : SymbolTable}

/-- The evaluator binds every name as the table does. -/
def Mirrors (e : Evaluator) (table : SymbolTable) : Prop :=
  ∀ name, e.lookup? name = table.lookup? name

theorem mirrors_ofTable (table : SymbolTable) : (ofTable table).Mirrors table := fun _ => rfl

theorem Mirrors.define (h : e.Mirrors table) (name : String) (u : MeasureUnit) :
    (e.define name u).Mirrors (table.define name u) := by
  intro other
  rw [lookup?_define, SymbolTable.lookup?_define, h other]

theorem Mirrors.evaluate_eq (h : e.Mirrors table) (formula : String) :
    e.evaluate formula = (ofTable table).evaluate formula := by
  apply evaluate_congr
  intro expr _ name _
  have alike : e.lookup? = (ofTable table).lookup? := funext h
  rw [resolve?_eq_find?, resolve?_eq_find?, alike]

end Evaluator

namespace CommandLine

/-- The definitions of a configuration as the command line takes them. -/
def pairs (units : List UnitDefinition) : List (String × String) :=
  units.map fun d => (d.name, d.formula)

/-! ### One definition -/

theorem defineOne_of_evaluate {e : Evaluator} {name formula : String} {u : MeasureUnit}
    (evaluated : e.evaluate formula = .ok u) :
    defineOne e (name, formula) = .ok (e.define name u) := by
  simp only [defineOne, evaluate, evaluated, mapError_ok, Except.map]

theorem defineOne_of_error {e : Evaluator} {name formula : String}
    {failure : Failure Formula.Error} (failed : e.evaluate formula = .error failure) :
    defineOne e (name, formula) = .error (ofFormula failure) := by
  simp only [defineOne, evaluate, failed, mapError_error, Except.map]

/-- A definition in a configuration names the unit that it fails for. -/
theorem defineUnit_of_error {table : SymbolTable} {d : UnitDefinition}
    {failure : Failure Formula.Error} (valid : isValidUnitName d.name = true)
    (failed : (Evaluator.ofTable table).evaluate d.formula = .error failure) :
    Config.defineUnit table d = .error (failure.map (.definition d.name)) := by
  refine Config.defineUnit_eq_error_iff.2 ?_
  cases failure with
  | error cause => exact .formula valid failed
  | fault fault => exact .fault valid failed

/-- Over an evaluator and a table that bind names alike, a definition binds its name to the same
    unit in both, or fails in both in the same way. -/
theorem define_in_step {e : Evaluator} {table : SymbolTable} {d : UnitDefinition}
    (mirrors : e.Mirrors table) (valid : isValidUnitName d.name = true) :
    (∃ u, defineOne e (d.name, d.formula) = .ok (e.define d.name u) ∧
      Config.defineUnit table d = .ok (table.define d.name u)) ∨
    ∃ failure, e.evaluate d.formula = .error failure ∧
      (Evaluator.ofTable table).evaluate d.formula = .error failure ∧
      defineOne e (d.name, d.formula) = .error (ofFormula failure) ∧
      Config.defineUnit table d = .error (failure.map (.definition d.name)) := by
  cases evaluated : (Evaluator.ofTable table).evaluate d.formula with
  | ok u =>
      have defined := Config.defineUnit_eq_ok_iff.2 ⟨valid, u, evaluated, rfl⟩
      rw [← mirrors.evaluate_eq] at evaluated
      exact .inl ⟨u, defineOne_of_evaluate evaluated, defined⟩
  | error failure =>
      have stopped := defineUnit_of_error valid evaluated
      rw [← mirrors.evaluate_eq] at evaluated
      exact .inr ⟨failure, evaluated, rfl, defineOne_of_error evaluated, stopped⟩

/-! ### Definitions in order -/

/-- Both ways to define units get through the definitions before the given one and fail at it with
    the given failure of its formula. -/
structure FailAt (e : Evaluator) (table : SymbolTable) (before : List UnitDefinition)
    (d : UnitDefinition) (after : List UnitDefinition) (failure : Failure Formula.Error) :
    Prop where
  reached : ∃ e' table', defineAll e (pairs before) = .ok e' ∧
    before.foldlM Config.defineUnit table = .ok table' ∧
    e'.evaluate d.formula = .error failure ∧
    (Evaluator.ofTable table').evaluate d.formula = .error failure
  onCommandLine : defineAll e (pairs (before ++ d :: after)) = .error (ofFormula failure)
  inConfig : (before ++ d :: after).foldlM Config.defineUnit table =
    .error (failure.map (.definition d.name))

variable {e e' : Evaluator} {table table' : SymbolTable} {d : UnitDefinition}
  {units : List UnitDefinition}

theorem defineAll_cons (h : defineOne e (d.name, d.formula) = .ok e') :
    defineAll e (pairs (d :: units)) = defineAll e' (pairs units) := by
  rw [defineAll, pairs, List.map_cons, List.foldlM_cons, h]
  rfl

theorem foldlM_defineUnit_cons (h : Config.defineUnit table d = .ok table') :
    (d :: units).foldlM Config.defineUnit table = units.foldlM Config.defineUnit table' := by
  rw [List.foldlM_cons, h]
  rfl

/-- So both get to the end with names bound alike, or fail at the same definition. -/
theorem defineAll_in_step (mirrors : e.Mirrors table)
    (valid : ∀ d ∈ units, isValidUnitName d.name = true) :
    (∃ e' table', defineAll e (pairs units) = .ok e' ∧
      units.foldlM Config.defineUnit table = .ok table' ∧ e'.Mirrors table') ∨
    ∃ before d after failure, units = before ++ d :: after ∧
      FailAt e table before d after failure := by
  induction units generalizing e table with
  | nil => exact .inl ⟨e, table, rfl, rfl, mirrors⟩
  | cons d units ih =>
      obtain ⟨validHere, validLater⟩ := List.forall_mem_cons.1 valid
      rcases define_in_step mirrors validHere with ⟨u, defined, definedUnit⟩ |
        ⟨failure, failed, failedUnit, stopped, stoppedUnit⟩
      · rcases ih (mirrors.define d.name u) validLater with ⟨e', table', ends, endsUnit, alike⟩ |
          ⟨before, bad, after, failure, rfl, ⟨s, t, gets, getsUnit, raised⟩, fails, failsUnit⟩
        · exact .inl ⟨e', table', (defineAll_cons defined).trans ends,
            (foldlM_defineUnit_cons definedUnit).trans endsUnit, alike⟩
        · refine .inr ⟨d :: before, bad, after, failure, rfl, ⟨s, t, ?_, ?_, raised⟩, ?_, ?_⟩
          · exact (defineAll_cons defined).trans gets
          · exact (foldlM_defineUnit_cons definedUnit).trans getsUnit
          · exact (defineAll_cons defined).trans fails
          · exact (foldlM_defineUnit_cons definedUnit).trans failsUnit
      · refine .inr ⟨[], d, units, failure, rfl, ⟨e, table, rfl, rfl, failed, failedUnit⟩, ?_, ?_⟩
        · rw [List.nil_append, defineAll, pairs, List.map_cons, List.foldlM_cons, stopped]
          rfl
        · rw [List.nil_append, List.foldlM_cons, stoppedUnit]
          rfl

/-! ### Formulas after definitions -/

/-- With names bound alike, a formula is evaluated to the same report. -/
theorem runEval_eq {definitions : List (String × String)}
    (defined : defineAll (.ofTable table) definitions = .ok e) (mirrors : e.Mirrors table')
    (settings : Config) (formula : String) (json : Bool) :
    runEval table settings formula definitions json = runEval table' settings formula [] json := by
  have alike : evaluate e formula = evaluate (.ofTable table') formula := by
    rw [evaluate, evaluate, mirrors.evaluate_eq]
  have undefined : defineAll (.ofTable table') [] = .ok (.ofTable table') := rfl
  simp only [runEval, defined, undefined, bind, Except.bind, alike]

/-- Definitions before a formula on the command line are as good as those of a configuration. If
    they have units, so every formula has the same unit over both and is reported in the same way.
    Otherwise, both fail at the same definition, with the same failure of its formula. -/
theorem definitions_agree (config : Config)
    (valid : ∀ d ∈ config.units, isValidUnitName d.name = true) :
    (∃ e table, defineAll (.ofTable .defaults) (pairs config.units) = .ok e ∧
      config.symbolTable = .ok table ∧
      (∀ formula, e.evaluate formula = (Evaluator.ofTable table).evaluate formula) ∧
      ∀ settings formula json, runEval .defaults settings formula (pairs config.units) json =
        runEval table settings formula [] json) ∨
    ∃ before d after failure, config.units = before ++ d :: after ∧
      FailAt (.ofTable .defaults) .defaults before d after failure ∧
      config.symbolTable = .error (failure.map (.definition d.name)) ∧
      ∀ settings formula json, runEval .defaults settings formula (pairs config.units) json =
        .error (ofFormula failure) := by
  rcases defineAll_in_step (Evaluator.mirrors_ofTable .defaults) valid with
    ⟨e, table, defined, definedUnits, mirrors⟩ | ⟨before, d, after, failure, split, fails⟩
  · exact .inl ⟨e, table, defined, definedUnits, mirrors.evaluate_eq, runEval_eq defined mirrors⟩
  · refine .inr ⟨before, d, after, failure, split, fails, ?_, fun settings formula json => ?_⟩
    · rw [Config.symbolTable, split, fails.inConfig]
    · rw [runEval, split, fails.onCommandLine]
      rfl

/-- Two metres, and then an area of two times two under the name of the metre. -/
def shadowing : Config := ⟨[⟨"fathom", "m*2"⟩, ⟨"m", "fathom^2"⟩], 10⟩

/-- The second definition uses the first and takes the place of a predefined unit. -/
theorem definitions_agree_shadowing :
    (∀ d ∈ shadowing.units, isValidUnitName d.name = true) ∧
    ∃ e table, defineAll (.ofTable .defaults) (pairs shadowing.units) = .ok e ∧
      shadowing.symbolTable = .ok table ∧
      e.evaluate "m" = .ok ⟨.ofList 2 0 0 0 0, .ofNat 4⟩ ∧
      (Evaluator.ofTable table).evaluate "m" = .ok ⟨.ofList 2 0 0 0 0, .ofNat 4⟩ := by
  have valid : ∀ d ∈ shadowing.units, isValidUnitName d.name = true := by decide +kernel
  let withFathom := (Evaluator.ofTable .defaults).define "fathom" ⟨.base .length, .ofNat 2⟩
  let withBoth := withFathom.define "m" ⟨.ofList 2 0 0 0 0, .ofNat 4⟩
  have two : Literal.read "2" = .ok (.whole 2) := by decide +kernel
  have lexedLength : Formula.Token.lex "m*2" = .ok [⟨.name, ⟨0, 1⟩, "m"⟩, ⟨.star, ⟨1, 2⟩, "*"⟩,
      ⟨.number, ⟨2, 3⟩, "2"⟩, ⟨.finish, .point 3, ""⟩] := by decide +kernel
  have length : (Evaluator.ofTable .defaults).evaluate "m*2" = .ok ⟨.base .length, .ofNat 2⟩ := by
    rw [Evaluator.evaluate_eq_of_parse
      (Formula.parse_of_lex_operation lexedLength rfl rfl rfl two rfl)]
    decide +kernel
  have lexedArea : Formula.Token.lex "fathom^2" = .ok [⟨.name, ⟨0, 6⟩, "fathom"⟩,
      ⟨.caret, ⟨6, 7⟩, "^"⟩, ⟨.number, ⟨7, 8⟩, "2"⟩, ⟨.finish, .point 8, ""⟩] := by decide +kernel
  have area : withFathom.evaluate "fathom^2" = .ok ⟨.ofList 2 0 0 0 0, .ofNat 4⟩ := by
    rw [Evaluator.evaluate_eq_of_parse
      (Formula.parse_of_lex_operation lexedArea rfl rfl rfl two rfl)]
    decide +kernel
  have defined : defineAll (.ofTable .defaults) (pairs shadowing.units) = .ok withBoth :=
    (defineAll_cons (defineOne_of_evaluate length)).trans
      (defineAll_cons (defineOne_of_evaluate area))
  have lexed : Formula.Token.lex "m" = .ok [⟨.name, ⟨0, 1⟩, "m"⟩, ⟨.finish, .point 1, ""⟩] := by
    decide +kernel
  have evaluated : withBoth.evaluate "m" = .ok ⟨.ofList 2 0 0 0 0, .ofNat 4⟩ := by
    rw [Evaluator.evaluate_eq_of_parse (Formula.parse_of_lex_name lexed rfl rfl)]
    decide +kernel
  rcases definitions_agree shadowing valid with ⟨e, table, ends, made, same, _⟩ |
    ⟨_, _, _, failure, split, fails, _⟩
  · obtain rfl : withBoth = e := Except.ok.inj (defined.symm.trans ends)
    exact ⟨valid, withBoth, table, ends, made, evaluated, same "m" ▸ evaluated⟩
  · rw [split, fails.onCommandLine] at defined
    cases defined

end CommandLine

end Metrology
