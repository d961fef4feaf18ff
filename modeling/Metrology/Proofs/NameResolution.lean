/-
Module: Metrology.Proofs.NameResolution
Layer: Proofs
Purpose: What names stand for after definitions. A name is bound to its last definition, and a bound
  name is never read as a prefix before another one; where it is not bound, one prefix and no more
  is taken off. What a formula denotes depends on its own names only, so an evaluator with names in
  front of its table is the evaluator of one table with all of them.
Imports: Metrology.Proofs.EvaluatorFold
Main exports: Expr.names, SymbolTable.lookup?_extend_eq, Resolution.find?_eq_exact_iff,
  Resolution.find?_eq_prefixed_iff, Resolution.find?_congr, Evaluator.fold_congr,
  Evaluator.evaluate_congr, Evaluator.lookup?_define, Evaluator.evaluate_extend_ofTable
-/
import Metrology.Proofs.EvaluatorFold

namespace Metrology

/-! ### Definitions in order -/

namespace SymbolTable

/-- A name is bound to its last definition, and without one to what it was bound to before. -/
theorem lookup?_extend_eq (table : SymbolTable) (pairs : List (String × MeasureUnit))
    (name : String) :
    (table.extend pairs).lookup? name = (pairs.reverse.lookup name).or (table.lookup? name) := by
  induction pairs generalizing table with
  | nil => rfl
  | cons pair pairs ih =>
      obtain ⟨key, u⟩ := pair
      have first : (table.define key u).lookup? name =
          ([(key, u)].lookup name).or (table.lookup? name) := by
        rw [lookup?_define]
        by_cases same : key = name
        · simp [same]
        · simp [same, List.lookup_cons, beq_false_of_ne (Ne.symm same)]
      calc ((table.define key u).extend pairs).lookup? name
          = (pairs.reverse.lookup name).or ((table.define key u).lookup? name) := ih _
        _ = ((pairs.reverse.lookup name).or ([(key, u)].lookup name)).or (table.lookup? name) := by
            rw [first, Option.or_assoc]
        _ = (((key, u) :: pairs).reverse.lookup name).or (table.lookup? name) := by
            rw [List.reverse_cons, List.lookup_append]

end SymbolTable

/-! ### One prefix and no more -/

namespace MetricPrefix

theorem ofSymbol?_eq_some_iff {c : Char} {p : MetricPrefix} :
    ofSymbol? c = some p ↔ c = p.symbol := by
  constructor
  · intro found
    have same := List.find?_some found
    exact (beq_iff_eq.1 same).symm
  · rintro rfl
    exact ofSymbol?_symbol p

theorem split?_eq_some_iff {name rest : List Char} {p : MetricPrefix} :
    split? name = some (p, rest) ↔ name = p.symbol :: rest ∧ rest ≠ [] := by
  cases name with
  | nil => simp [split?]
  | cons first others =>
      cases others with
      | nil => simp [split?]
      | cons second others =>
          simp only [split?, List.isEmpty_cons, Bool.false_eq_true, if_false,
            Option.map_eq_some_iff, ofSymbol?_eq_some_iff, Prod.mk.injEq, List.cons.injEq]
          constructor
          · rintro ⟨p', rfl, rfl, rfl⟩
            simp
          · rintro ⟨⟨rfl, rfl⟩, -⟩
            simp

end MetricPrefix

namespace Resolution

variable {lookup? : String → Option MeasureUnit} {name : String}

/-- A name stands for a unit exactly when it is bound to it as it is written. -/
theorem find?_eq_exact_iff {u : MeasureUnit} :
    find? lookup? name = some (.exact u) ↔ lookup? name = some u := by
  unfold find?
  cases lookup? name with
  | some v => simp
  | none => cases MetricPrefix.split? name.toList <;> simp

/-- A name stands for a prefixed unit exactly when it is not bound itself, and is the symbol of the
    prefix before a name that is bound to the unit. -/
theorem find?_eq_prefixed_iff {p : MetricPrefix} {base : MeasureUnit} :
    find? lookup? name = some (.prefixed p base) ↔
      lookup? name = none ∧ ∃ rest, rest ≠ [] ∧ name.toList = p.symbol :: rest ∧
        lookup? (String.ofList rest) = some base := by
  unfold find?
  cases lookup? name with
  | some v => simp
  | none =>
      cases split : MetricPrefix.split? name.toList with
      | none =>
          simp only [reduceCtorEq, true_and, false_iff, not_exists, not_and]
          intro rest nonempty shape _
          rw [MetricPrefix.split?_eq_some_iff.2 ⟨shape, nonempty⟩] at split
          cases split
      | some found =>
          obtain ⟨p', rest⟩ := found
          obtain ⟨shape, nonempty⟩ := MetricPrefix.split?_eq_some_iff.1 split
          simp only [Option.map_eq_some_iff, prefixed.injEq, true_and]
          constructor
          · rintro ⟨_, bound, rfl, rfl⟩
            exact ⟨rest, nonempty, shape, bound⟩
          · rintro ⟨rest', nonempty', shape', bound⟩
            have same := MetricPrefix.split?_eq_some_iff.2 ⟨shape', nonempty'⟩
            rw [split] at same
            cases same
            exact ⟨base, bound, rfl, rfl⟩

/-- A name is looked up as it is written, and then what it leaves behind a prefix; nothing else
    counts. -/
theorem find?_congr {lookup?' : String → Option MeasureUnit} (whole : lookup? name = lookup?' name)
    (behind : ∀ (p : MetricPrefix) (rest : List Char), name.toList = p.symbol :: rest →
      lookup? (String.ofList rest) = lookup?' (String.ofList rest)) :
    find? lookup? name = find? lookup?' name := by
  unfold find?
  rw [whole]
  cases lookup?' name with
  | some v => rfl
  | none =>
      cases split : MetricPrefix.split? name.toList with
      | none => rfl
      | some found =>
          obtain ⟨p, rest⟩ := found
          obtain ⟨shape, -⟩ := MetricPrefix.split?_eq_some_iff.1 split
          simp only [behind p rest shape]

end Resolution

/-! ### Formulas depend on their names only -/

/-- The names in a tree, from left to right. -/
def Formula.Expr.names : Formula.Expr → List String
  | .name text _ => [text]
  | .number _ _ => []
  | .neg operand _ => operand.names
  | .binary _ left right _ => left.names ++ right.names

namespace Evaluator

open Formula (Expr)

variable {e e' : Evaluator}

/-- Evaluators in which the names of a tree stand for the same fold it alike. -/
theorem fold_congr {expr : Expr}
    (same : ∀ name ∈ expr.names, e.resolve? name = e'.resolve? name) :
    e.fold expr = e'.fold expr := by
  induction expr with
  | name name span => rw [fold, fold, same name (List.mem_singleton.2 rfl)]
  | number value span => rfl
  | neg operand span ih => rw [fold_neg, fold_neg, ih same]
  | binary op left right span ihLeft ihRight =>
      have sameLeft := ihLeft fun name mem => same name (List.mem_append_left _ mem)
      have sameRight := ihRight fun name mem => same name (List.mem_append_right _ mem)
      rw [fold_binary, fold_binary, sameLeft, sameRight]

theorem evaluate_congr {formula : String}
    (same : ∀ expr, Expr.parse formula = .ok expr →
      ∀ name ∈ expr.names, e.resolve? name = e'.resolve? name) :
    e.evaluate formula = e'.evaluate formula := by
  cases parsed : Expr.parse formula with
  | error cause => simp only [evaluate, parsed]
  | ok expr =>
      rw [evaluate_eq_of_parse parsed, evaluate_eq_of_parse parsed, evaluateExpr_eq,
        evaluateExpr_eq, fold_congr (same expr parsed)]

/-! ### Names in front of a table -/

theorem lookup?_define (e : Evaluator) (name : String) (u : MeasureUnit) (other : String) :
    (e.define name u).lookup? other = if name = other then some u else e.lookup? other := by
  have inFront := e.overrides.lookup?_define name u other
  by_cases same : name = other
  · rw [if_pos same] at inFront ⊢
    simp only [lookup?, define, inFront]
  · rw [if_neg same] at inFront ⊢
    simp only [lookup?, define, inFront]

/-- Names in front of a table are bound as if they had been defined in it. -/
theorem lookup?_extend_ofTable (table : SymbolTable) (pairs : List (String × MeasureUnit))
    (name : String) :
    ((ofTable table).extend pairs).lookup? name = (table.extend pairs).lookup? name := by
  have front : ((ofTable table).extend pairs).overrides.lookup? name =
      pairs.reverse.lookup name := by
    have defined := SymbolTable.lookup?_extend_eq .empty pairs name
    rwa [SymbolTable.lookup?_empty, Option.or_none] at defined
  have behind : ((ofTable table).extend pairs).table = table := rfl
  rw [SymbolTable.lookup?_extend_eq, lookup?, front, behind]
  cases pairs.reverse.lookup name <;> rfl

theorem resolve?_extend_ofTable (table : SymbolTable) (pairs : List (String × MeasureUnit))
    (name : String) :
    ((ofTable table).extend pairs).resolve? name = (table.extend pairs).resolve? name := by
  have bound : ((ofTable table).extend pairs).lookup? = (table.extend pairs).lookup? :=
    funext (lookup?_extend_ofTable table pairs)
  rw [resolve?_eq_find?, bound, SymbolTable.resolve?]

theorem resolve?_ofTable (table : SymbolTable) (name : String) :
    (ofTable table).resolve? name = table.resolve? name :=
  resolve?_extend_ofTable table [] name

/-- Names in front of a table are as good as names defined in it: every formula denotes the same,
    and every name stands for the same. A name that is bound anywhere, by its last definition or by
    the table, stands for that unit; only a name that is bound nowhere is read as one prefix before
    a name that is. -/
theorem evaluate_extend_ofTable (table : SymbolTable) (pairs : List (String × MeasureUnit)) :
    (∀ formula, ((ofTable table).extend pairs).evaluate formula =
      (ofTable (table.extend pairs)).evaluate formula) ∧
    ∀ name,
      ((ofTable table).extend pairs).resolve? name = (table.extend pairs).resolve? name ∧
      (∀ u, ((ofTable table).extend pairs).resolve? name = some (.exact u) ↔
        (pairs.reverse.lookup name).or (table.lookup? name) = some u) ∧
      ∀ p base, ((ofTable table).extend pairs).resolve? name = some (.prefixed p base) ↔
        (pairs.reverse.lookup name).or (table.lookup? name) = none ∧
        ∃ rest, rest ≠ [] ∧ name.toList = p.symbol :: rest ∧
          (pairs.reverse.lookup (String.ofList rest)).or
            (table.lookup? (String.ofList rest)) = some base := by
  refine ⟨fun formula => ?_, fun name => ⟨?_, fun u => ?_, fun p base => ?_⟩⟩
  · apply evaluate_congr
    intro expr _ name _
    rw [resolve?_extend_ofTable, resolve?_ofTable]
  · exact resolve?_extend_ofTable table pairs name
  · rw [resolve?_eq_find?, Resolution.find?_eq_exact_iff, lookup?_extend_ofTable,
      SymbolTable.lookup?_extend_eq]
  · simp only [resolve?_eq_find?, Resolution.find?_eq_prefixed_iff, lookup?_extend_ofTable,
      SymbolTable.lookup?_extend_eq]

end Evaluator

end Metrology
