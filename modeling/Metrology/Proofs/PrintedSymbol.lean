/-
Module: Metrology.Proofs.PrintedSymbol
Layer: Proofs
Purpose: Symbols of terms, read as formulas. A symbol has parentheses where its parts would group
  otherwise, and none where a product is as good as its factors one by one; so the formula has the
  exponents of the term, whatever is nested in what. What can go wrong is a name: a prefix before a
  symbol may spell another unit. That is so for three of them, and the milli-inch, whose symbol is
  that of the minute, is the only one with another dimension.
Imports: Metrology.Proofs.AlgebraAgreement, Metrology.Proofs.ContractAgreement,
  Metrology.Proofs.DimensionSoundness, Metrology.Proofs.EvaluationFaults,
  Metrology.Proofs.NameResolution, Metrology.UnitTerm
Main exports: UnitTerm.formula, UnitTerm.Printable, UnitTerm.milliInches, Evaluator.Carries,
  Formula.LexedTo, Formula.Factors, UnitTerm.Printable.reads, UnitTerm.Printable.exponent_evaluate,
  UnitTerm.dimension_evaluate_iff
-/
import Metrology.Proofs.AlgebraAgreement
import Metrology.Proofs.ContractAgreement
import Metrology.Proofs.DimensionSoundness
import Metrology.Proofs.EvaluationFaults
import Metrology.Proofs.NameResolution
import Metrology.UnitTerm

namespace Metrology

open Formula (Category Derives Expr NumbersReadable Operator Shape Token TokenKind)
open AlgebraTerm (exponentShape fold_exponentShape)

/-! ### Vectors of shapes -/

namespace Evaluator

variable {e : Evaluator} {left right : Shape} {v w : ExponentVector}

/-- A tree of the shape has the vector, if it has one. -/
def Carries (e : Evaluator) (shape : Shape) (v : ExponentVector) : Prop :=
  ∀ expr, shape.Fits expr → ∀ w, e.vector? expr = some w → w = v

/-- The parts of a tree that has a vector have one. -/
theorem exists_of_vector?_binary {op : Operator} (plain : op ≠ .pow) {l r : Expr} {span : Span}
    (h : e.vector? (.binary op l r span) = some v) :
    ∃ a b, e.vector? l = some a ∧ e.vector? r = some b ∧
      ExponentVector.combine? op a b = some v := by
  cases left : e.vector? l with
  | none => cases op <;> simp [vector?, left] at h plain
  | some a =>
      cases right : e.vector? r with
      | none => cases op <;> simp [vector?, left, right] at h plain
      | some b =>
          rw [vector?_binary plain left right] at h
          exact ⟨a, b, rfl, rfl, h⟩

/-- A product or a quotient has the vector that its parts' vectors combine to. -/
theorem Carries.binary {op : Operator} {x : ExponentVector} (plain : op ≠ .pow)
    (h : e.Carries left v) (h' : e.Carries right w)
    (combined : ExponentVector.combine? op v w = some x) :
    e.Carries (.binary op left right) x := by
  intro expr fits y carried
  cases fits with
  | binary fitsLeft fitsRight =>
      obtain ⟨a, b, hasLeft, hasRight, same⟩ := exists_of_vector?_binary plain carried
      rw [h _ fitsLeft a hasLeft, h' _ fitsRight b hasRight, combined] at same
      exact (Option.some.inj same).symm

theorem Carries.pow {n : Int} (h : e.Carries left v) (range : -(2 ^ 31) ≤ n ∧ n < 2 ^ 31) :
    e.Carries (.binary .pow left (exponentShape n)) fun q => v q * n := by
  intro expr fits x carried
  cases fits with
  | @binary _ _ _ base exponent span fitsBase fitsExponent =>
      obtain ⟨k, folded, whole⟩ := @fold_exponentShape e n exponent range fitsExponent
      cases has : e.vector? base with
      | none => simp [vector?, has] at carried
      | some a =>
          rw [vector?_pow has (wholeValue?_of_fold folded whole), h _ fitsBase a has] at carried
          exact (Option.some.inj carried).symm

theorem carries_number (text : String) : e.Carries (.number text) .zero := by
  intro expr fits x carried
  cases fits with
  | number reading => exact (Option.some.inj carried).symm

theorem carries_name {text : String}
    (named : ∀ resolution u, e.resolve? text = some resolution → resolution.unit = .ok u →
      u.dimension.exponent = v) : e.Carries (.name text) v := by
  intro expr fits x carried
  cases fits with
  | name =>
      simp only [vector?] at carried
      cases resolved : e.resolve? text with
      | none => simp [resolved] at carried
      | some resolution =>
          cases made : resolution.unit with
          | error fault => simp [resolved, made] at carried
          | ok u =>
              simp only [resolved, Option.map_some, made, Option.some.injEq] at carried
              rw [← carried, named resolution u resolved made]

end Evaluator

namespace Formula

/-! ### Texts piece by piece -/

/-- Wherever the text stands, it is lexed to tokens with the property, and their numbers can be
    read. -/
def LexedTo (chars : List Char) (p : List Token → Prop) : Prop :=
  ∀ offset, ∃ tokens, Token.Lexes offset chars tokens ∧ NumbersReadable tokens ∧ p tokens

namespace LexedTo

variable {chars more : List Char} {p p' : List Token → Prop}

theorem mono (h : LexedTo chars p) (implies : ∀ tokens, p tokens → p' tokens) :
    LexedTo chars p' := by
  intro offset
  obtain ⟨tokens, lexed, readable, has⟩ := h offset
  exact ⟨tokens, lexed, readable, implies tokens has⟩

/-- Names and numbers. -/
theorem written {shape : Shape} (h : shape.Written) :
    LexedTo shape.renderChars fun tokens => Derives .primary tokens shape := by
  intro offset
  obtain ⟨tokens, lexed, derived, readable⟩ := h.lexes offset
  exact ⟨tokens, lexed, readable, derived⟩

/-- A text behind an operator. -/
theorem behind {c : Char} {kind : TokenKind} (symbol : Token.operatorKind? c = some kind)
    (h : LexedTo more p) :
    LexedTo (c :: more) fun tokens => ∃ token back, tokens = token :: back ∧ token.kind = kind ∧
      p back := by
  intro offset
  obtain ⟨token, same, joins⟩ := Token.Lexes.operator symbol offset
  obtain ⟨back, lexed, readable, has⟩ := h (offset + byteLength [c])
  refine ⟨_, joins lexed, ?_, token, back, rfl, same, has⟩
  have noNumber : token.kind ≠ .number := same ▸ (Token.operatorKind?_ne symbol).2
  simp [numbersReadable_cons, readable, noNumber]

/-- Two texts joined by an operator. -/
theorem join {c : Char} {kind : TokenKind} (symbol : Token.operatorKind? c = some kind)
    (h : LexedTo chars p) (h' : LexedTo more p') :
    LexedTo (chars ++ c :: more) fun tokens => ∃ front token back,
      tokens = front ++ token :: back ∧ token.kind = kind ∧ p front ∧ p' back := by
  intro offset
  obtain ⟨front, lexed, readable, has⟩ := h offset
  obtain ⟨_, lexed', readable', token, back, rfl, same, has'⟩ :=
    h'.behind symbol (offset + byteLength chars)
  exact ⟨_, lexed.append (Token.operatorKind?_class symbol).2 lexed',
    numbersReadable_append.2 ⟨readable, readable'⟩, front, token, back, rfl, same, has, has'⟩

theorem parenthesized (h : LexedTo chars p) :
    LexedTo ('(' :: (chars ++ [')'])) fun tokens => ∃ opening inner closing,
      tokens = opening :: inner ++ [closing] ∧ opening.kind = .leftParen ∧
        closing.kind = .rightParen ∧ p inner := by
  intro offset
  obtain ⟨inner, lexed, readable, has⟩ := h (offset + byteLength ['('])
  obtain ⟨opening, closing, opens, closes, whole⟩ := lexed.parenthesized
  refine ⟨_, whole, ?_, opening, inner, closing, rfl, opens, closes, has⟩
  simp [numbersReadable_cons, numbersReadable_append, numbersReadable_nil, readable, opens, closes]

end LexedTo

/-! ### Tokens with a vector -/

/-- The grammar derives the tokens from the category as a shape that carries the vector. -/
def ReadAs (e : Evaluator) (category : Category) (v : ExponentVector) (tokens : List Token) :
    Prop :=
  ∃ shape, Derives category tokens shape ∧ e.Carries shape v

variable {e : Evaluator} {v w : ExponentVector} {tokens front back : List Token} {token : Token}

theorem ReadAs.power (h : ReadAs e .primary v tokens) : ReadAs e (.chain .power) v tokens := by
  obtain ⟨shape, derived, carries⟩ := h
  exact ⟨shape, @Derives.first .power _ _ (.bare derived), carries⟩

/-- The tokens are a product with the vector; and behind any other product they are taken factor by
    factor, to the same effect. -/
structure Factors (e : Evaluator) (v : ExponentVector) (tokens : List Token) : Prop where
  alone : ReadAs e (.chain .product) v tokens
  behind : ∀ front token w, ReadAs e (.chain .product) w front → token.kind = .star →
    ReadAs e (.chain .product) (fun q => w q + v q) (front ++ token :: tokens)

namespace Factors

theorem of_power (h : ReadAs e (.chain .power) v tokens) : Factors e v tokens := by
  obtain ⟨shape, derived, carries⟩ := h
  refine ⟨⟨shape, @Derives.first .product _ _ derived, carries⟩, ?_⟩
  rintro front token w ⟨left, derivedLeft, carriesLeft⟩ star
  exact ⟨.binary .mul left shape, .more derivedLeft (by rw [star]; decide) derived,
    carriesLeft.binary (by decide) carries rfl⟩

theorem mul (h : Factors e v front) (star : token.kind = .star) (h' : Factors e w back) :
    Factors e (fun q => v q + w q) (front ++ token :: back) := by
  refine ⟨h'.behind front token v h.alone star, ?_⟩
  intro before joint x product star'
  have longer := h'.behind _ token _ (h.behind before joint x product star') star
  have regrouped : (fun q => x q + v q + w q) = fun q => x q + (v q + w q) :=
    funext fun q => Int.add_assoc _ _ _
  rw [regrouped] at longer
  simpa using longer

/-- A quotient goes on as a product, but what it is divided by has to be one factor. -/
theorem div (h : Factors e v front) (slash : token.kind = .slash)
    (h' : ReadAs e (.chain .power) w back) :
    Factors e (fun q => v q - w q) (front ++ token :: back) := by
  obtain ⟨right, derivedRight, carriesRight⟩ := h'
  have divided : ∀ before x, ReadAs e (.chain .product) x before →
      ReadAs e (.chain .product) (fun q => x q - w q) (before ++ token :: back) := by
    rintro before x ⟨left, derivedLeft, carriesLeft⟩
    exact ⟨.binary .div left right, .more derivedLeft (by rw [slash]; decide) derivedRight,
      carriesLeft.binary (by decide) carriesRight rfl⟩
  refine ⟨divided front v h.alone, ?_⟩
  intro before joint x product star
  have longer := divided _ _ (h.behind before joint x product star)
  have regrouped : (fun q => x q + v q - w q) = fun q => x q + (v q - w q) :=
    funext fun q => Int.add_sub_assoc _ _ _
  rw [regrouped] at longer
  simpa using longer

end Factors

/-- A product in parentheses is an operand. -/
theorem LexedTo.group {chars : List Char}
    (h : LexedTo chars (ReadAs e (.chain .product) v)) :
    LexedTo ('(' :: (chars ++ [')'])) (ReadAs e .primary v) := by
  refine h.parenthesized.mono ?_
  rintro _ ⟨opening, inner, closing, rfl, opens, closes, shape, derived, carries⟩
  exact ⟨shape, .group opens closes (@Derives.first .sum _ _ derived), carries⟩

end Formula

open Formula (Factors LexedTo ReadAs)

/-! ### Exponents of results -/

namespace MeasureUnit

variable {u v w : MeasureUnit}

theorem exponent_of_multiply (h : u.multiply v = .ok w) :
    w.dimension.exponent = fun q => u.dimension.exponent q + v.dimension.exponent q :=
  (checkedUnit_eq_ok_iff.1 (((corresponds_multiply u v).results w).1 h)).1

theorem exponent_of_divide (h : u.divide v = .ok w) :
    w.dimension.exponent = fun q => u.dimension.exponent q - v.dimension.exponent q :=
  (checkedUnit_eq_ok_iff.1 (((corresponds_divide u v).results w).1 h)).1

theorem exponent_of_raise {n : Int} (h : u.raise n = .ok w) :
    w.dimension.exponent = fun q => u.dimension.exponent q * n :=
  (checkedRaise_eq_ok_iff.1 (((corresponds_raise u n).results w).1 h)).1

theorem dimension_of_applyPrefix {p : MetricPrefix} (h : u.applyPrefix p = .ok w) :
    w.dimension = u.dimension :=
  (checkedScale_eq_ok_iff.1 (((corresponds_scale u p.multiplier).results w).1 h)).2.1

end MeasureUnit

namespace UnitTerm

/-! ### Names with a prefix -/

/-- The symbol of a prefixed unit. -/
def prefixedSymbol (u : CatalogUnit) (p : MetricPrefix) : String :=
  String.ofList (p.symbol :: u.symbol.toList)

/-- The unit whose dimension the symbol of a prefixed unit has in a formula: the unit itself, but
    for the milli-inch, whose symbol is that of the minute. -/
def readUnit (u : CatalogUnit) (p : MetricPrefix) : CatalogUnit :=
  if u = .inch ∧ p = .milli then .minute else u

theorem symbol_isName (u : CatalogUnit) :
    u.symbol.toList ≠ [] ∧ ∀ c ∈ u.symbol.toList, Token.isNameChar c = true := by
  cases (AlgebraTerm.written_names u).1 with
  | name nonempty all => exact ⟨nonempty, all⟩

/-- A predefined name that a prefix and a symbol spell has the dimension of the unit with that
    symbol, unless it is `min`. -/
theorem dimension_of_collision {c u : CatalogUnit} {p : MetricPrefix}
    (same : prefixedSymbol u p = c.symbol ∨ prefixedSymbol u p = c.name) :
    c.unit.dimension = (readUnit u p).unit.dimension := by
  have checked : ∀ c ∈ CatalogUnit.all, ∀ key ∈ [c.symbol, c.name],
      ∀ found ∈ MetricPrefix.split? key.toList, ∀ u ∈ CatalogUnit.all,
        u.symbol.toList = found.2 → c.unit.dimension = (readUnit u found.1).unit.dimension := by
    decide +kernel
  obtain ⟨key, among, rfl⟩ : ∃ key ∈ [c.symbol, c.name], key = prefixedSymbol u p := by
    rcases same with symbol | name
    · exact ⟨_, by simp, symbol.symm⟩
    · exact ⟨_, by simp, name.symm⟩
  have split : MetricPrefix.split? (prefixedSymbol u p).toList = some (p, u.symbol.toList) :=
    MetricPrefix.split?_eq_some_iff.2 ⟨String.toList_ofList, (symbol_isName u).1⟩
  exact checked c c.mem_all _ among _ split u u.mem_all rfl

/-- The evaluator of the predefined names. -/
def predefined : Evaluator := (Evaluator.ofTable .defaults).extend []

theorem lookup?_symbol (u : CatalogUnit) : predefined.lookup? u.symbol = some u.unit :=
  (AlgebraTerm.knowsCatalog_defaults u).1

/-- Whatever a prefix and a symbol are resolved to, they have the dimension of the unit with that
    symbol, but for `min`. -/
theorem carries_prefixedSymbol (u : CatalogUnit) (p : MetricPrefix) :
    predefined.Carries (.name (prefixedSymbol u p)) (readUnit u p).unit.dimension.exponent := by
  refine Evaluator.carries_name fun resolution w resolved made => ?_
  rw [Evaluator.resolve?_eq_find?] at resolved
  cases resolution with
  | exact bound =>
      cases made
      obtain ⟨c, rfl, spelled⟩ :=
        SymbolTable.lookup?_defaults (Resolution.find?_eq_exact_iff.1 resolved)
      rw [dimension_of_collision spelled]
  | prefixed p' base =>
      obtain ⟨unbound, rest, -, shape, bound⟩ := Resolution.find?_eq_prefixed_iff.1 resolved
      rw [prefixedSymbol, String.toList_ofList] at shape
      obtain ⟨-, rfl⟩ := List.cons.inj shape
      rw [String.ofList_toList, lookup?_symbol] at bound
      cases bound
      have other : ¬(u = .inch ∧ p = .milli) := by
        rintro ⟨rfl, rfl⟩
        have isMinute : prefixedSymbol .inch .milli = CatalogUnit.minute.symbol := by decide
        rw [isMinute, lookup?_symbol] at unbound
        cases unbound
      rw [readUnit, if_neg other, MeasureUnit.dimension_of_applyPrefix made]

theorem carries_symbol (u : CatalogUnit) :
    predefined.Carries (.name u.symbol) u.unit.dimension.exponent := by
  refine Evaluator.carries_name fun resolution w resolved made => ?_
  rw [Evaluator.resolve?_eq_find?, Resolution.find?_eq_exact_iff.2 (lookup?_symbol u)] at resolved
  cases resolved
  cases made
  rfl

/-! ### Symbols as formulas -/

/-- The terms that are types: exponents fit 32 bits with a sign, and prefixes stand before
    predefined units. -/
inductive Printable : UnitTerm → Prop where
  | one : Printable one
  | named (u : CatalogUnit) : Printable (named u)
  | product {a b : UnitTerm} (left : Printable a) (right : Printable b) : Printable (product a b)
  | quotient {a b : UnitTerm} (left : Printable a) (right : Printable b) :
      Printable (quotient a b)
  | power {a : UnitTerm} {n : Int} (base : Printable a) (range : -(2 ^ 31) ≤ n ∧ n < 2 ^ 31) :
      Printable (power a n)
  | prefixed (u : CatalogUnit) (p : MetricPrefix) : Printable (prefixed (named u) p)

/-- A product is a star in formulas. -/
def formulaChar (c : Char) : Char := if c = '·' then '*' else c

/-- The characters of the symbol as a formula. -/
def formulaChars (t : UnitTerm) : List Char := t.symbolChars.map formulaChar

/-- The symbol as a formula. -/
def formula (t : UnitTerm) : String := String.ofList t.formulaChars

/-- The power of the milli-inch in a term. -/
@[simp] def milliInches : UnitTerm → Int
  | one => 0
  | named _ => 0
  | product a b => a.milliInches + b.milliInches
  | quotient a b => a.milliInches - b.milliInches
  | power a n => a.milliInches * n
  | prefixed a p => if a = named .inch ∧ p = .milli then 1 else 0

/-- What the exponents of the minute are beyond those of the inch. -/
def mistaken : ExponentVector := fun q =>
  CatalogUnit.minute.unit.dimension.exponent q - CatalogUnit.inch.unit.dimension.exponent q

/-- The exponents that a term with a unit has as a formula. -/
def readVector (t : UnitTerm) (d : MeasureUnit) : ExponentVector := fun q =>
  d.dimension.exponent q + t.milliInches * mistaken q

theorem map_formulaChar {cs : List Char} (plain : '·' ∉ cs) : cs.map formulaChar = cs := by
  have same : ∀ c ∈ cs, formulaChar c = id c := by
    intro c mem
    exact if_neg fun dot : c = '·' => plain (dot ▸ mem)
  rw [List.map_congr_left same, List.map_id]

theorem map_formulaChar_of_name {cs : List Char} (name : ∀ c ∈ cs, Token.isNameChar c = true) :
    cs.map formulaChar = cs :=
  map_formulaChar fun mem => absurd (name _ mem) (by decide)

theorem readVector_one : one.readVector .one = ExponentVector.zero := by
  funext q
  rw [readVector, MeasureUnit.exponent_one, milliInches, Int.zero_mul, Int.add_zero]

theorem readVector_named (u : CatalogUnit) :
    (named u).readVector u.unit = u.unit.dimension.exponent := by
  funext q
  rw [readVector, milliInches, Int.zero_mul, Int.add_zero]

theorem readVector_prefixed {u : CatalogUnit} {p : MetricPrefix} {d : MeasureUnit}
    (defined : u.unit.applyPrefix p = .ok d) :
    (prefixed (named u) p).readVector d = (readUnit u p).unit.dimension.exponent := by
  funext q
  rw [readVector, MeasureUnit.dimension_of_applyPrefix defined, milliInches, readUnit]
  by_cases isMilliInch : u = .inch ∧ p = .milli
  · obtain ⟨rfl, rfl⟩ := isMilliInch
    rw [if_pos ⟨rfl, rfl⟩, if_pos ⟨rfl, rfl⟩, mistaken]
    omega
  · have other : ¬(named u = named .inch ∧ p = .milli) := by simpa using isMilliInch
    rw [if_neg isMilliInch, if_neg other, Int.zero_mul, Int.add_zero]

section Composed

variable {a b : UnitTerm} {u v w : MeasureUnit}

theorem readVector_product (defined : u.multiply v = .ok w) :
    (product a b).readVector w = fun q => a.readVector u q + b.readVector v q := by
  funext q
  simp only [readVector, MeasureUnit.exponent_of_multiply defined, milliInches, Int.add_mul]
  omega

theorem readVector_quotient (defined : u.divide v = .ok w) :
    (quotient a b).readVector w = fun q => a.readVector u q - b.readVector v q := by
  funext q
  simp only [readVector, MeasureUnit.exponent_of_divide defined, milliInches, Int.sub_mul]
  omega

theorem readVector_power {n : Int} (defined : u.raise n = .ok w) :
    (power a n).readVector w = fun q => a.readVector u q * n := by
  funext q
  simp only [readVector, MeasureUnit.exponent_of_raise defined, milliInches, Int.add_mul,
    Int.mul_right_comm]

end Composed

theorem written_prefixedSymbol (u : CatalogUnit) (p : MetricPrefix) :
    Shape.Written (.name (prefixedSymbol u p)) := by
  have first : Token.isNameChar p.symbol = true := by cases p <;> rfl
  refine .name (by simp [prefixedSymbol]) ?_
  rw [prefixedSymbol, String.toList_ofList]
  exact List.forall_mem_cons.2 ⟨first, (symbol_isName u).2⟩

theorem formulaChars_prefixed (u : CatalogUnit) (p : MetricPrefix) :
    (prefixed (named u) p).formulaChars = (prefixedSymbol u p).toList := by
  have plain : u.symbol.toList.any operators.contains = false := by
    refine List.any_eq_false.2 fun c mem operator => ?_
    have name := (symbol_isName u).2 c mem
    simp only [operators, List.contains_iff_mem, List.mem_cons, List.not_mem_nil, or_false]
      at operator
    rcases operator with rfl | rfl | rfl <;> exact absurd name (by decide)
  cases written_prefixedSymbol u p with
  | name _ all =>
      rw [prefixedSymbol, String.toList_ofList] at all ⊢
      simp only [formulaChars, symbolChars, grouped, plain, Bool.false_eq_true, if_false]
      exact map_formulaChar_of_name all

theorem formulaChars_product (a b : UnitTerm) :
    (product a b).formulaChars = a.formulaChars ++ '*' :: b.formulaChars := by
  simp [formulaChars, symbolChars, formulaChar]

theorem formulaChars_quotient (a b : UnitTerm) :
    (quotient a b).formulaChars =
      a.formulaChars ++ '/' :: (grouped ['·', '/'] b.symbolChars).map formulaChar := by
  simp [formulaChars, symbolChars, formulaChar]

theorem formulaChars_power (a : UnitTerm) (n : Int) :
    (power a n).formulaChars =
      (grouped operators a.symbolChars).map formulaChar ++ '^' :: (intChars n).map formulaChar := by
  simp [formulaChars, symbolChars, formulaChar]

/-- How the tokens of a term's formula can be taken: as a product; as one factor if it is no product
    or quotient; and as an operand if it is no operation at all. -/
structure Reading (t : UnitTerm) (v : ExponentVector) (tokens : List Token) : Prop where
  factors : Factors predefined v tokens
  factor : t.symbolChars.any ['·', '/'].contains = false →
    ReadAs predefined (.chain .power) v tokens
  operand : t.symbolChars.any operators.contains = false →
    ReadAs predefined .primary v tokens

theorem Reading.of_operand {t : UnitTerm} {v : ExponentVector} {tokens : List Token}
    (h : ReadAs predefined .primary v tokens) : Reading t v tokens :=
  ⟨.of_power h.power, fun _ => h.power, fun _ => h⟩

/-- A symbol in parentheses, or without them where it has none of the operators. -/
theorem lexedTo_grouped {ops symbol : List Char} {category : Category} {v : ExponentVector}
    {p : List Token → Prop} (h : LexedTo (symbol.map formulaChar) p)
    (product : ∀ tokens, p tokens → ReadAs predefined (.chain .product) v tokens)
    (alone : symbol.any ops.contains = false →
      ∀ tokens, p tokens → ReadAs predefined category v tokens)
    (operand : ∀ tokens, ReadAs predefined .primary v tokens →
      ReadAs predefined category v tokens) :
    LexedTo ((grouped ops symbol).map formulaChar)
      (ReadAs predefined category v) := by
  unfold grouped
  cases compound : symbol.any ops.contains with
  | false => simpa using h.mono (alone compound)
  | true =>
      have parenthesized := (h.mono product).group.mono operand
      simpa [formulaChar] using parenthesized

/-- A whole number in the exponent, with its sign. -/
theorem lexedTo_intChars {n : Int} (range : -(2 ^ 31) ≤ n ∧ n < 2 ^ 31) :
    LexedTo ((intChars n).map formulaChar) fun tokens =>
      Derives .unary tokens (exponentShape n) := by
  have digits : (Nat.toDigits 10 n.natAbs).map formulaChar = decimalDigits n.natAbs :=
    map_formulaChar fun mem => absurd (isDigit_of_mem_decimalDigits mem) (by decide)
  have magnitude := LexedTo.written
    (AlgebraTerm.written_numeral (AlgebraTerm.natAbs_le_of_fits range))
  rw [AlgebraTerm.renderChars_numeral] at magnitude
  unfold intChars exponentShape
  rw [List.map_append, digits]
  split
  · next negative =>
    refine (magnitude.behind (c := '-') rfl).mono ?_
    rintro _ ⟨token, back, rfl, minus, derived⟩
    exact .negation minus (.bare derived)
  · exact magnitude.mono fun tokens derived => .bare derived

/-! ### Readings, one operation at a time -/

section Reads

variable {a b : UnitTerm} {v w : ExponentVector}

theorem reads_one : LexedTo one.formulaChars (Reading one .zero) := by
  have digit := LexedTo.written (AlgebraTerm.written_numeral (n := 1) (by decide))
  rw [AlgebraTerm.renderChars_numeral] at digit
  exact digit.mono fun tokens derived => .of_operand ⟨_, derived, Evaluator.carries_number _⟩

theorem reads_named (u : CatalogUnit) :
    LexedTo (named u).formulaChars (Reading (named u) u.unit.dimension.exponent) := by
  rw [formulaChars, symbolChars, map_formulaChar_of_name (symbol_isName u).2]
  exact (LexedTo.written (AlgebraTerm.written_names u).1).mono fun tokens derived =>
    .of_operand ⟨_, derived, carries_symbol u⟩

theorem reads_prefixed (u : CatalogUnit) (p : MetricPrefix) :
    LexedTo (prefixed (named u) p).formulaChars
      (Reading (prefixed (named u) p) (readUnit u p).unit.dimension.exponent) := by
  rw [formulaChars_prefixed]
  exact (LexedTo.written (written_prefixedSymbol u p)).mono fun tokens derived =>
    .of_operand ⟨_, derived, carries_prefixedSymbol u p⟩

theorem reads_product (left : LexedTo a.formulaChars (Reading a v))
    (right : LexedTo b.formulaChars (Reading b w)) :
    LexedTo (product a b).formulaChars (Reading (product a b) fun q => v q + w q) := by
  rw [formulaChars_product]
  refine (left.join (c := '*') rfl right).mono ?_
  rintro _ ⟨front, token, back, rfl, star, first, second⟩
  exact ⟨first.factors.mul star second.factors, by simp [symbolChars],
    by simp [symbolChars, operators]⟩

theorem reads_quotient (left : LexedTo a.formulaChars (Reading a v))
    (right : LexedTo b.formulaChars (Reading b w)) :
    LexedTo (quotient a b).formulaChars (Reading (quotient a b) fun q => v q - w q) := by
  have divisor := lexedTo_grouped right (fun _ r => r.factors.alone) (fun none _ r => r.factor none)
    (fun _ operand => operand.power)
  rw [formulaChars_quotient]
  refine (left.join (c := '/') rfl divisor).mono ?_
  rintro _ ⟨front, token, back, rfl, slash, first, second⟩
  exact ⟨first.factors.div slash second, by simp [symbolChars], by simp [symbolChars, operators]⟩

theorem reads_power {n : Int} (range : -(2 ^ 31) ≤ n ∧ n < 2 ^ 31)
    (base : LexedTo a.formulaChars (Reading a v)) :
    LexedTo (power a n).formulaChars (Reading (power a n) fun q => v q * n) := by
  have operand := lexedTo_grouped base (fun _ r => r.factors.alone) (fun none _ r => r.operand none)
    (fun _ operand => operand)
  rw [formulaChars_power]
  refine (operand.join (c := '^') rfl (lexedTo_intChars range)).mono ?_
  rintro _ ⟨front, token, back, rfl, caret, ⟨left, derived, carries⟩, exponent⟩
  have chain : Derives (.chain .power) front left := @Derives.first .power _ _ (.bare derived)
  have power : ReadAs predefined (.chain .power) (fun q => v q * n) (front ++ token :: back) :=
    ⟨_, .more chain (by rw [caret]; decide) exponent, carries.pow range⟩
  exact ⟨.of_power power, fun _ => power, by simp [symbolChars, operators]⟩

end Reads

/-- The formula of a term is lexed to tokens that can be taken in all these ways, and have the
    exponents of the term's unit, with minutes for milli-inches. -/
theorem Printable.reads {t : UnitTerm} (h : Printable t) {d : MeasureUnit}
    (defined : t.definition = .ok d) :
    LexedTo t.formulaChars (Reading t (t.readVector d)) := by
  induction h generalizing d with
  | one =>
      cases defined
      rw [readVector_one]
      exact reads_one
  | named u =>
      cases defined
      rw [readVector_named]
      exact reads_named u
  | prefixed u p =>
      rw [readVector_prefixed defined]
      exact reads_prefixed u p
  | product _ _ ihLeft ihRight =>
      obtain ⟨u, definedLeft, rest⟩ := bind_eq_ok_iff.1 defined
      obtain ⟨v, definedRight, multiplied⟩ := bind_eq_ok_iff.1 rest
      rw [readVector_product multiplied]
      exact reads_product (ihLeft definedLeft) (ihRight definedRight)
  | quotient _ _ ihLeft ihRight =>
      obtain ⟨u, definedLeft, rest⟩ := bind_eq_ok_iff.1 defined
      obtain ⟨v, definedRight, divided⟩ := bind_eq_ok_iff.1 rest
      rw [readVector_quotient divided]
      exact reads_quotient (ihLeft definedLeft) (ihRight definedRight)
  | power _ range ih =>
      obtain ⟨u, definedBase, raised⟩ := bind_eq_ok_iff.1 defined
      rw [readVector_power raised]
      exact reads_power range (ih definedBase)

/-- The symbol of a term with a unit is a formula, and what its tree denotes has the exponents of
    the unit, with minutes for milli-inches. -/
theorem Printable.exists_tree {t : UnitTerm} (h : Printable t) {d : MeasureUnit}
    (defined : t.definition = .ok d) :
    ∃ expr, Expr.parse t.formula = .ok expr ∧
      ∀ v, predefined.vector? expr = some v → v = t.readVector d := by
  obtain ⟨tokens, lexed, readable, reading⟩ := h.reads defined 0
  obtain ⟨shape, derived, carries⟩ := reading.factors.alone
  have sum : Derives (.chain .sum) tokens shape := @Derives.first .sum _ _ derived
  obtain ⟨expr, parsed, fits⟩ := Formula.parse_eq_ok_of_derives lexed.lex_eq rfl readable sum
  exact ⟨expr, parsed, carries expr fits⟩

theorem Printable.exponent_evaluate {t : UnitTerm} (h : Printable t) {d u : MeasureUnit}
    (defined : t.definition = .ok d) (evaluated : Evaluator.evaluateWith [] t.formula = .ok u) :
    u.dimension.exponent = t.readVector d := by
  obtain ⟨expr, parsed, only⟩ := h.exists_tree defined
  obtain ⟨expr', o, parsed', folded, same⟩ := Evaluator.evaluate_eq_ok_iff.1 evaluated
  obtain rfl : expr = expr' := Except.ok.inj (parsed.symm.trans parsed')
  rw [Operand.exponent_of_toUnit same]
  exact only _ (Evaluator.vector?_eq_of_fold folded)

/-- Whatever unit the symbol of a term denotes as a formula, it has the dimension of the term's unit
    exactly when the powers of the milli-inch in the term cancel. -/
theorem dimension_evaluate_iff {t : UnitTerm} {d u : MeasureUnit} (h : Printable t)
    (defined : t.definition = .ok d) (evaluated : Evaluator.evaluateWith [] t.formula = .ok u) :
    u.dimension = d.dimension ↔ t.milliInches = 0 := by
  have exponents := h.exponent_evaluate defined evaluated
  constructor
  · intro same
    have time := congrFun exponents .time
    have once : mistaken .time = 1 := by decide +kernel
    rw [same, readVector, once] at time
    omega
  · intro none
    refine Dimension.ext_exponent fun q => ?_
    rw [exponents, readVector, none, Int.zero_mul, Int.add_zero]

/-- Square kilometres. -/
theorem dimension_evaluate_iff_area :
    ∃ d u, Printable (power (prefixed (named .meter) .kilo) 2) ∧
      (power (prefixed (named .meter) .kilo) 2).definition = .ok d ∧
      Evaluator.evaluateWith [] (power (prefixed (named .meter) .kilo) 2).formula = .ok u ∧
      u.dimension = d.dimension := by
  have printable : Printable (power (prefixed (named .meter) .kilo) 2) :=
    .power (.prefixed .meter .kilo) (by decide)
  have defined : (power (prefixed (named .meter) .kilo) 2).definition =
      .ok ⟨.ofList 2 0 0 0 0, .ofNat 1000000⟩ := by decide +kernel
  have written : (power (prefixed (named .meter) .kilo) 2).formula = "km^2" := by decide +kernel
  have lexed : Token.lex "km^2" = .ok [⟨.name, ⟨0, 2⟩, "km"⟩, ⟨.caret, ⟨2, 3⟩, "^"⟩,
      ⟨.number, ⟨3, 4⟩, "2"⟩, ⟨.finish, .point 4, ""⟩] := by decide +kernel
  have two : Literal.read "2" = .ok (.whole 2) := by decide +kernel
  have evaluated : Evaluator.evaluateWith [] (power (prefixed (named .meter) .kilo) 2).formula =
      .ok ⟨.ofList 2 0 0 0 0, .ofNat 1000000⟩ := by
    rw [written, Evaluator.evaluateWith,
      Evaluator.evaluate_eq_of_parse (Formula.parse_of_lex_operation lexed rfl rfl rfl two rfl)]
    decide +kernel
  exact ⟨_, _, printable, defined, evaluated,
    (dimension_evaluate_iff printable defined evaluated).2 rfl⟩

/-- The milli-inch is a length, and its symbol denotes the minute. -/
theorem evaluate_milliInch :
    Printable (prefixed (named .inch) .milli) ∧
      (prefixed (named .inch) .milli).formula = "min" ∧
      Evaluator.evaluateWith [] "min" = .ok CatalogUnit.minute.unit ∧
      ∃ d, (prefixed (named .inch) .milli).definition = .ok d ∧
        CatalogUnit.minute.unit.dimension ≠ d.dimension := by
  have lexed : Token.lex "min" = .ok [⟨.name, ⟨0, 3⟩, "min"⟩, ⟨.finish, .point 3, ""⟩] := by
    decide +kernel
  have evaluated : Evaluator.evaluateWith [] "min" = .ok CatalogUnit.minute.unit := by
    rw [Evaluator.evaluateWith,
      Evaluator.evaluate_eq_of_parse (Formula.parse_of_lex_name lexed rfl rfl)]
    decide +kernel
  have defined : (prefixed (named .inch) .milli).definition =
      .ok ⟨.base .length, CatalogUnit.inch.unit.factor * MetricPrefix.milli.multiplier⟩ := by
    decide +kernel
  exact ⟨.prefixed .inch .milli, by decide +kernel, evaluated, _, defined, by decide +kernel⟩

end UnitTerm

end Metrology
