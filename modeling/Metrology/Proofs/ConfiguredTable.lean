/-
Module: Metrology.Proofs.ConfiguredTable
Layer: Proofs
Purpose: The table of a configuration. Each entry is defined over the table with the entries before
  it, and the first one that cannot be defined is reported: its name if that is not valid, and else
  the failure of its formula. A valid name is just what the lexer takes as one name, and a bound
  name is never read as a prefix before another one; so the last entry of a name can be told from
  the table by evaluating its name.
Imports: Metrology.Config, Metrology.Proofs.NameResolution, Metrology.Proofs.Tokenization
Main exports: isValidUnitName_iff_lex, Evaluator.evaluate_name, Config.Defines, Config.Offends,
  Config.defineUnit_eq_error_iff, Config.foldlM_defineUnit_eq_ok_iff, Config.Defines.lookup?_last,
  Config.symbolTable_outcome
-/
import Metrology.Config
import Metrology.Proofs.NameResolution
import Metrology.Proofs.Tokenization

namespace Metrology

open Formula (Token)

/-! ### Names -/

theorem isValidUnitName_iff {name : String} :
    isValidUnitName name = true ↔
      name.toList ≠ [] ∧ ∀ c ∈ name.toList, Token.isNameChar c = true := by
  simp [isValidUnitName]

/-- Valid names are what the lexer takes as one name and nothing else. -/
theorem isValidUnitName_iff_lex {name : String} :
    isValidUnitName name = true ↔ ∃ span stop,
      Token.lex name = .ok [⟨.name, span, name⟩, ⟨.finish, .point stop, ""⟩] := by
  rw [isValidUnitName_iff]
  constructor
  · rintro ⟨nonempty, inside⟩
    obtain ⟨c, more, chars⟩ := List.exists_cons_of_ne_nil nonempty
    have lexed := Token.lexFrom_name (chars ▸ inside) Token.boundary_nil 0
    rw [List.append_nil, Token.lexFrom_nil, ← chars, String.ofList_toList] at lexed
    exact ⟨_, _, lexed⟩
  · rintro ⟨span, stop, lexed⟩
    exact (Token.scans_iff.2 lexed).isNameChar_of_name List.mem_cons_self rfl

/-- A bound name denotes the unit that it is bound to, whatever it begins with. -/
theorem Evaluator.evaluate_name {e : Evaluator} {name : String} {u : MeasureUnit}
    (valid : isValidUnitName name = true) (bound : e.lookup? name = some u) :
    e.evaluate name = .ok u := by
  obtain ⟨span, stop, lexed⟩ := isValidUnitName_iff_lex.1 valid
  have resolved : e.resolve? name = some (.exact u) := by
    rw [resolve?_eq_find?, Resolution.find?_eq_exact_iff, bound]
  exact evaluate_eq_ok_iff.2 ⟨_, .unit u, Formula.parse_of_lex_name lexed rfl rfl,
    fold_name_eq_ok_iff.2 ⟨_, u, resolved, rfl, rfl⟩, rfl⟩

namespace Config

/-! ### One entry -/

/-- An entry cannot be defined over a table: its name is not valid, or its formula fails. -/
inductive Offends (table : SymbolTable) (d : UnitDefinition) : Failure ConfigError → Prop where
  | name (invalid : isValidUnitName d.name = false) :
      Offends table d (.error (.invalidName d.name))
  | formula {cause : Formula.Error} (valid : isValidUnitName d.name = true)
      (failed : (Evaluator.ofTable table).evaluate d.formula = .error (.error cause)) :
      Offends table d (.error (.definition d.name cause))
  | fault {fault : Fault} (valid : isValidUnitName d.name = true)
      (failed : (Evaluator.ofTable table).evaluate d.formula = .error (.fault fault)) :
      Offends table d (.fault fault)

variable {table table' : SymbolTable} {d : UnitDefinition} {failure : Failure ConfigError}

theorem defineUnit_eq_ok_iff :
    defineUnit table d = .ok table' ↔ isValidUnitName d.name = true ∧
      ∃ u, (Evaluator.ofTable table).evaluate d.formula = .ok u ∧
        table' = table.define d.name u := by
  unfold defineUnit
  cases isValidUnitName d.name with
  | false => simp
  | true =>
      cases (Evaluator.ofTable table).evaluate d.formula with
      | ok u => simp [eq_comm]
      | error failure => cases failure <;> simp

theorem defineUnit_eq_error_iff :
    defineUnit table d = .error failure ↔ Offends table d failure := by
  constructor
  · intro failed
    unfold defineUnit at failed
    cases valid : isValidUnitName d.name with
    | false =>
        rw [valid] at failed
        cases failed
        exact .name valid
    | true =>
        rw [valid] at failed
        cases evaluated : (Evaluator.ofTable table).evaluate d.formula with
        | ok u => simp [evaluated] at failed
        | error failure =>
            rw [evaluated] at failed
            cases failure with
            | error cause =>
                cases failed
                exact .formula valid evaluated
            | fault fault =>
                cases failed
                exact .fault valid evaluated
  · intro offends
    unfold defineUnit
    cases offends with
    | name invalid => simp [invalid]
    | formula valid failed => simp [valid, failed]
    | fault valid failed => simp [valid, failed]

/-! ### Entries in order -/

/-- `Defines table entries pairs`: each name is valid, and each formula denotes its unit over the
    table with the entries before it. -/
inductive Defines : SymbolTable → List UnitDefinition → List (String × MeasureUnit) → Prop where
  | nil {table : SymbolTable} : Defines table [] []
  | cons {table : SymbolTable} {d : UnitDefinition} {u : MeasureUnit}
      {entries : List UnitDefinition} {pairs : List (String × MeasureUnit)}
      (valid : isValidUnitName d.name = true)
      (denotes : (Evaluator.ofTable table).evaluate d.formula = .ok u)
      (others : Defines (table.define d.name u) entries pairs) :
      Defines table (d :: entries) ((d.name, u) :: pairs)

variable {entries before after : List UnitDefinition} {pairs : List (String × MeasureUnit)}

/-- A run of definitions gets to the end exactly when every entry can be defined in its turn. -/
theorem foldlM_defineUnit_eq_ok_iff :
    entries.foldlM defineUnit table = .ok table' ↔
      ∃ pairs, Defines table entries pairs ∧ table' = table.extend pairs := by
  induction entries generalizing table with
  | nil =>
      constructor
      · intro ended
        cases ended
        exact ⟨[], .nil, rfl⟩
      · rintro ⟨_, ⟨⟩, rfl⟩
        rfl
  | cons d entries ih =>
      rw [List.foldlM_cons]
      constructor
      · intro ended
        obtain ⟨next, defined, rest⟩ := bind_eq_ok_iff.1 ended
        obtain ⟨valid, u, denotes, rfl⟩ := defineUnit_eq_ok_iff.1 defined
        obtain ⟨pairs, others, rfl⟩ := ih.1 rest
        exact ⟨_, .cons valid denotes others, rfl⟩
      · rintro ⟨_, defines, rfl⟩
        cases defines with
        | cons valid denotes others =>
            have defined := defineUnit_eq_ok_iff.2 ⟨valid, _, denotes, rfl⟩
            exact bind_eq_ok_iff.2 ⟨_, defined, ih.2 ⟨_, others, rfl⟩⟩

theorem Defines.names_eq (h : Defines table entries pairs) :
    pairs.map Prod.fst = entries.map UnitDefinition.name := by
  induction h with
  | nil => rfl
  | cons _ _ _ ih => exact congrArg (_ :: ·) ih

/-- Entries in front are defined before the others. -/
theorem Defines.split (h : Defines table (before ++ after) pairs) :
    ∃ front back, pairs = front ++ back ∧ Defines table before front ∧
      Defines (table.extend front) after back := by
  induction before generalizing table pairs with
  | nil => exact ⟨[], pairs, rfl, .nil, h⟩
  | cons d before ih =>
      cases h with
      | cons valid denotes others =>
          obtain ⟨front, back, rfl, first, later⟩ := ih others
          exact ⟨_ :: front, back, rfl, .cons valid denotes first, later⟩

/-- The last entry of a name is what the name is bound to in the end. -/
theorem Defines.lookup?_last (h : Defines table (before ++ d :: after) pairs)
    (last : ∀ later ∈ after, later.name ≠ d.name) :
    ∃ front u, Defines table before front ∧ isValidUnitName d.name = true ∧
      (Evaluator.ofTable (table.extend front)).evaluate d.formula = .ok u ∧
      (table.extend pairs).lookup? d.name = some u := by
  obtain ⟨front, _, rfl, first, here⟩ := h.split
  cases here with
  | @cons _ _ u _ back valid denotes others =>
      have unbound : back.reverse.lookup d.name = none := by
        rw [List.lookup_eq_none_iff]
        intro pair mem
        have named : pair.1 ∈ after.map UnitDefinition.name :=
          others.names_eq ▸ List.mem_map_of_mem (List.mem_reverse.1 mem)
        obtain ⟨later, inAfter, name⟩ := List.mem_map.1 named
        have other := last later inAfter
        rw [name] at other
        exact bne_iff_ne.2 (Ne.symm other)
      refine ⟨front, u, first, valid, denotes, ?_⟩
      rw [SymbolTable.lookup?_extend_eq, List.reverse_append, List.reverse_cons,
        List.append_assoc, List.lookup_append, unbound]
      simp

/-- The outcome of a configuration. It has a table exactly when each entry in turn has a valid name
    and a formula that denotes a unit over the predefined units and the entries before it; the table
    is that of the predefined units with the entries defined in order, and the name of the last
    entry of each name denotes over it just what its formula denoted in its place. Otherwise the
    first entry that cannot be defined is reported, and its name before its formula. -/
theorem symbolTable_outcome (config : Config) :
    (∀ table, config.symbolTable = .ok table ↔
      ∃ pairs, Defines .defaults config.units pairs ∧
        table = SymbolTable.defaults.extend pairs) ∧
    (∀ failure, config.symbolTable = .error failure ↔
      ∃ before d after pairs, config.units = before ++ d :: after ∧
        Defines .defaults before pairs ∧ Offends (SymbolTable.defaults.extend pairs) d failure) ∧
    (∀ table before d after, config.symbolTable = .ok table →
      config.units = before ++ d :: after → (∀ later ∈ after, later.name ≠ d.name) →
      ∃ pairs u, Defines .defaults before pairs ∧
        (Evaluator.ofTable (SymbolTable.defaults.extend pairs)).evaluate d.formula = .ok u ∧
        (Evaluator.ofTable table).evaluate d.name = .ok u) ∧
    ∀ name, isValidUnitName name = true ↔ ∃ span stop,
      Token.lex name = .ok [⟨.name, span, name⟩, ⟨.finish, .point stop, ""⟩] := by
  refine ⟨fun table => foldlM_defineUnit_eq_ok_iff, fun failure => ?_, ?_,
    fun name => isValidUnitName_iff_lex⟩
  · rw [symbolTable, foldlM_eq_error_iff]
    constructor
    · rintro ⟨before, d, after, table, split, reached, failed⟩
      obtain ⟨pairs, defines, rfl⟩ := foldlM_defineUnit_eq_ok_iff.1 reached
      exact ⟨before, d, after, pairs, split, defines, defineUnit_eq_error_iff.1 failed⟩
    · rintro ⟨before, d, after, pairs, split, defines, offends⟩
      exact ⟨before, d, after, _, split, foldlM_defineUnit_eq_ok_iff.2 ⟨pairs, defines, rfl⟩,
        defineUnit_eq_error_iff.2 offends⟩
  · intro table before d after made split last
    obtain ⟨pairs, defines, rfl⟩ := foldlM_defineUnit_eq_ok_iff.1 made
    rw [split] at defines
    obtain ⟨front, u, first, valid, denotes, bound⟩ := defines.lookup?_last last
    exact ⟨front, u, first, denotes, Evaluator.evaluate_name valid bound⟩

/-- A unit near the end of the range, and a name that is a prefix before it. -/
def overflowing : Config := ⟨[⟨"big", "m*1e308"⟩, ⟨"x", "Tbig"⟩], 10⟩

/-- The formula of the second entry is at fault, and the configuration with it: it has no table, and
    no entry is reported. -/
theorem symbolTable_overflowing :
    overflowing.symbolTable = .error (.fault .factorRange) ∧
      ∀ err, overflowing.symbolTable ≠ .error (.error err) := by
  have big : (Evaluator.ofTable .defaults).evaluate "m*1e308" =
      .ok ⟨.base .length, Decimal.toBinary .double false ⟨1, 308⟩⟩ := by
    have lexed : Token.lex "m*1e308" = .ok [⟨.name, ⟨0, 1⟩, "m"⟩, ⟨.star, ⟨1, 2⟩, "*"⟩,
        ⟨.number, ⟨2, 7⟩, "1e308"⟩, ⟨.finish, .point 7, ""⟩] := by decide +kernel
    have number : Literal.read "1e308" =
        .ok (.real (Decimal.toBinary .double false ⟨1, 308⟩)) := by decide +kernel
    rw [Evaluator.evaluate_eq_of_parse
      (Formula.parse_of_lex_operation lexed rfl rfl rfl number rfl)]
    decide +kernel
  have fails : (Evaluator.ofTable (SymbolTable.defaults.define "big"
      ⟨.base .length, Decimal.toBinary .double false ⟨1, 308⟩⟩)).evaluate "Tbig" =
      .error (.fault .factorRange) := by
    have lexed : Token.lex "Tbig" = .ok [⟨.name, ⟨0, 4⟩, "Tbig"⟩, ⟨.finish, .point 4, ""⟩] := by
      decide +kernel
    rw [Evaluator.evaluate_eq_of_parse (Formula.parse_of_lex_name lexed rfl rfl)]
    decide +kernel
  have failed : overflowing.symbolTable = .error (.fault .factorRange) := by
    refine foldlM_eq_error_iff.2 ⟨[⟨"big", "m*1e308"⟩], ⟨"x", "Tbig"⟩, [], _, rfl, ?_,
      defineUnit_eq_error_iff.2 (.fault (by decide) fails)⟩
    exact foldlM_defineUnit_eq_ok_iff.2 ⟨_, .cons (by decide) big .nil, rfl⟩
  exact ⟨failed, by simp [failed]⟩

end Config

end Metrology
