/-
Module: Metrology.Proofs.FiniteNumbers
Layer: Proofs
Purpose: Numbers that are not finite, in formulas that denote a unit. Arithmetic on numbers is never
  refused, so a division by zero or an overflow gives infinity or no number at all, and such a value
  stays so through sums, differences, products and as a dividend. Where a number meets a unit or is
  an exponent it must be finite. What is left are the operations that make a finite number of one
  that is not: a quotient by infinity is zero, a zeroth power is one, and a negative power of
  infinity is zero. Each value that is not finite is an operand of one of them, or part of one.
Imports: Metrology.Proofs.BinaryRatio, Metrology.Proofs.EvaluatorFold,
  Metrology.Proofs.FormulaShape, Metrology.Proofs.GrammarRun, Metrology.Proofs.OperandOutcomes
Main exports: Binary.of_isFinite_power, Operand.DropsBase, Operand.DropsDivisor,
  Operand.isFinite_of_apply, Evaluator.Absorbs, Evaluator.isFinite_or_absorbs_of_fold,
  Evaluator.evaluate_isFinite_or_absorbs
-/
import Metrology.Proofs.BinaryRatio
import Metrology.Proofs.EvaluatorFold
import Metrology.Proofs.FormulaShape
import Metrology.Proofs.GrammarRun
import Metrology.Proofs.OperandOutcomes

namespace Metrology

open Formula (Expr Operator Error Token)

/-! ### Finite results of arithmetic -/

namespace Binary

variable {w : Width} {a b acc base : Binary w} {count : Nat}

theorem isFinite_neg (a : Binary w) : (-a).isFinite = a.isFinite := by
  change (neg a).isFinite = _
  cases a <;> rfl

theorem of_isFinite_add (h : (a + b).isFinite = true) :
    a.isFinite = true ∧ b.isFinite = true := by
  change (add a b).isFinite = true at h
  cases a with
  | nan => cases h
  | infinite s =>
      cases b with
      | nan => cases h
      | infinite t => cases s <;> cases t <;> cases h
      | finite t n _ => cases h
  | finite s m _ =>
      cases b with
      | nan => cases h
      | infinite t => cases h
      | finite t n _ => exact ⟨rfl, rfl⟩

theorem of_isFinite_sub (h : (a - b).isFinite = true) :
    a.isFinite = true ∧ b.isFinite = true := by
  obtain ⟨left, right⟩ := @of_isFinite_add w a (-b) h
  rw [isFinite_neg] at right
  exact ⟨left, right⟩

/-- A quotient is finite also where the divisor is infinite. -/
theorem of_isFinite_div (h : (a / b).isFinite = true) :
    a.isFinite = true ∧ (b.isFinite = true ∨ ∃ s, b = .infinite s) := by
  change (div a b).isFinite = true at h
  cases a with
  | nan => cases h
  | infinite s => cases b <;> cases h
  | finite s m _ =>
      cases b with
      | nan => cases h
      | infinite t => exact ⟨rfl, .inr ⟨t, rfl⟩⟩
      | finite t n _ => exact ⟨rfl, .inl rfl⟩

/-- Of a reciprocal that is positive and finite the divisor is finite. -/
theorem isFinite_of_isPositiveFinite_reciprocal (h : (one / b).isPositiveFinite = true) :
    b.isFinite = true := by
  obtain ⟨_, finite | ⟨s, rfl⟩⟩ := of_isFinite_div (isFinite_of_isPositiveFinite h)
  · exact finite
  · change (zero (false ^^ s) : Binary w).isPositiveFinite = true at h
    simp [zero, isPositiveFinite] at h

theorem mul_nan (a : Binary w) : a * nan = nan := by
  change mul a nan = nan
  cases a <;> rfl

/-! ### Powers -/

theorem of_isFinite_squareMultiply (h : (squareMultiply acc base count).isFinite = true) :
    acc.isFinite = true ∧ (count ≠ 0 → base.isFinite = true) :=
  of_squareMultiply (P := fun a => a.isFinite = true) of_isFinite_mul h

theorem squareMultiply_nan (positive : count ≠ 0) : squareMultiply acc nan count = nan := by
  induction count using Nat.strongRecOn generalizing acc with
  | ind count ih =>
      rw [squareMultiply]
      by_cases last : count / 2 = 0
      · have odd : count % 2 = 1 := by omega
        simp only [last, odd, if_true, mul_nan]
      · simp only [last, if_false, mul_nan]
        exact ih _ (by omega) last

/-- One, or infinity of either sign. -/
def IsOneOrInfinite (a : Binary w) : Prop :=
  a = one ∨ ∃ s, a = .infinite s

theorem IsOneOrInfinite.mul_infinite {s : Bool} (h : IsOneOrInfinite a) :
    ∃ t, a * .infinite s = .infinite t := by
  change ∃ t, mul a (.infinite s) = .infinite t
  rcases h with rfl | ⟨t, rfl⟩
  · exact ⟨false ^^ s, by simp [mul, one, Width.one]⟩
  · exact ⟨t ^^ s, rfl⟩

theorem squareMultiply_infinite {s : Bool} (positive : count ≠ 0) (start : IsOneOrInfinite acc) :
    ∃ t, squareMultiply acc (.infinite s) count = .infinite t := by
  induction count using Nat.strongRecOn generalizing acc s with
  | ind count ih =>
      have square : (.infinite s : Binary w) * .infinite s = .infinite (s ^^ s) := rfl
      rw [squareMultiply]
      by_cases last : count / 2 = 0
      · have odd : count % 2 = 1 := by omega
        simpa only [last, odd, if_true] using start.mul_infinite
      · simp only [last, if_false, square]
        refine ih _ (by omega) last ?_
        split
        · exact .inr start.mul_infinite
        · exact start

/-- A power is finite of a finite base, for a zeroth power, and for a negative power of infinity. -/
theorem of_isFinite_power {n : Int} (h : (a.power n).isFinite = true) :
    a.isFinite = true ∨ n = 0 ∨ (n < 0 ∧ ∃ s, a = .infinite s) := by
  by_cases zeroth : n = 0
  · exact .inr (.inl zeroth)
  have positive : n.natAbs ≠ 0 := by omega
  by_cases negative : n < 0
  · simp only [power, negative, if_true] at h
    obtain ⟨_, finite | ⟨s, infinite⟩⟩ := of_isFinite_div h
    · exact .inl ((of_isFinite_squareMultiply finite).2 positive)
    · cases a with
      | nan => rw [squareMultiply_nan positive] at infinite; cases infinite
      | infinite t => exact .inr (.inr ⟨negative, t, rfl⟩)
      | finite t m _ => exact .inl rfl
  · simp only [power, negative, if_false] at h
    exact .inl ((of_isFinite_squareMultiply h).2 positive)

/-! ### Values that come of infinity -/

/-- Zero, of either sign. -/
def IsZero (a : Binary w) : Prop := ∃ s, a = zero s

theorem isZero_div_infinite {s : Bool} (h : a.isFinite = true) : IsZero (a / .infinite s) := by
  change ∃ t, div a (.infinite s) = zero t
  cases a with
  | nan => cases h
  | infinite t => cases h
  | finite t m _ => exact ⟨t ^^ s, rfl⟩

theorem power_zero (a : Binary w) : a.power 0 = one := by
  simp [power, squareMultiply]

theorem isZero_power_infinite {s : Bool} {n : Int} (negative : n < 0) :
    IsZero ((infinite s : Binary w).power n) := by
  obtain ⟨t, magnitude⟩ :=
    @squareMultiply_infinite w one n.natAbs s (by omega) (.inl rfl)
  simp only [power, negative, if_true, magnitude]
  exact isZero_div_infinite rfl

end Binary

/-! ### Operations on operands -/

namespace Operand

variable {op : Operator} {exponentSpan span : Span} {left right o : Operand}

/-- A number is finite; of a unit nothing is asked. -/
def IsFinite : Operand → Prop
  | number k => k.isFinite = true
  | unit _ => True

/-- Numbers for which a power says nothing of its base: a zeroth power of a base that is not finite,
    and a negative power of an infinite one. -/
def DropsBase (a k : Double) : Prop :=
  ∃ n, k.toInt? = some n ∧
    ((a.isFinite = false ∧ n = 0) ∨ (n < 0 ∧ ∃ s, a = .infinite s))

/-- Numbers for which a quotient says nothing of its divisor: a finite number over infinity. -/
def DropsDivisor (a b : Double) : Prop :=
  a.isFinite = true ∧ ∃ s, b = .infinite s

theorem isFinite_of_toInt? {k : Double} {n : Int} (h : k.toInt? = some n) :
    k.isFinite = true := by
  cases k with
  | nan => cases h
  | infinite s => cases h
  | finite s m _ => rfl

theorem isPositiveFinite_of_located {u v : MeasureUnit} {k : Double}
    (h : located span (u.checkedScale k) = .ok v) : k.isPositiveFinite = true :=
  (MeasureUnit.checkedScale_eq_ok_iff.1 (mapError_eq_ok_iff.1 h)).1

theorem isFinite_of_toUnit {u : MeasureUnit} (h : o.toUnit span = .ok u) : o.IsFinite := by
  cases o with
  | number k => exact Binary.isFinite_of_isPositiveFinite (isPositiveFinite_of_located h)
  | unit v => trivial

theorem isFinite_of_combineTerms {operator : Formula.TermOperator}
    (h : combineTerms operator span left right = .ok o) : left.IsFinite ∧ right.IsFinite := by
  obtain ⟨u, leftUnit, rest⟩ := bind_eq_ok_iff.1 h
  obtain ⟨v, rightUnit, _⟩ := bind_eq_ok_iff.1 rest
  exact ⟨isFinite_of_toUnit leftUnit, isFinite_of_toUnit rightUnit⟩

/-- The operands of a sum with a finite value are finite. -/
theorem isFinite_of_combine {operator : Formula.TermOperator}
    (h : combine operator span left right = .ok o) (finite : o.IsFinite) :
    left.IsFinite ∧ right.IsFinite := by
  rcases combine_cases operator left right with ⟨a, b, rfl, rfl⟩ | combined
  · cases h
    cases operator with
    | add => exact Binary.of_isFinite_add finite
    | subtract => exact Binary.of_isFinite_sub finite
  · rw [combined] at h
    exact isFinite_of_combineTerms h

theorem isFinite_of_mul (h : mul span left right = .ok o) (finite : o.IsFinite) :
    left.IsFinite ∧ right.IsFinite := by
  cases left with
  | number a =>
      cases right with
      | number b =>
          cases h
          exact Binary.of_isFinite_mul finite
      | unit v =>
          obtain ⟨_, scaled, _⟩ := map_eq_ok_iff.1 h
          exact ⟨Binary.isFinite_of_isPositiveFinite (isPositiveFinite_of_located scaled),
            trivial⟩
  | unit u =>
      cases right with
      | number b =>
          obtain ⟨_, scaled, _⟩ := map_eq_ok_iff.1 h
          exact ⟨trivial,
            Binary.isFinite_of_isPositiveFinite (isPositiveFinite_of_located scaled)⟩
      | unit v => exact ⟨trivial, trivial⟩

/-- The divisor of a finite quotient is finite or is dropped. -/
theorem isFinite_of_div (h : div span left right = .ok o) (finite : o.IsFinite) :
    left.IsFinite ∧
      (right.IsFinite ∨ ∃ a b, left = number a ∧ right = number b ∧ DropsDivisor a b) := by
  cases left with
  | number a =>
      cases right with
      | number b =>
          cases h
          obtain ⟨dividend, divisor | infinite⟩ := Binary.of_isFinite_div finite
          · exact ⟨dividend, .inl divisor⟩
          · exact ⟨dividend, .inr ⟨a, b, rfl, rfl, dividend, infinite⟩⟩
      | unit v =>
          obtain ⟨_, located, _⟩ := map_eq_ok_iff.1 h
          obtain ⟨inverse, _, scaled⟩ := bind_eq_ok_iff.1 (mapError_eq_ok_iff.1 located)
          obtain ⟨positive, _⟩ := MeasureUnit.checkedScale_eq_ok_iff.1 scaled
          exact ⟨Binary.isFinite_of_isPositiveFinite positive, .inl trivial⟩
  | unit u =>
      cases right with
      | number b =>
          obtain ⟨_, scaled, _⟩ := map_eq_ok_iff.1 h
          exact ⟨trivial, .inl
            (Binary.isFinite_of_isPositiveFinite_reciprocal (isPositiveFinite_of_located scaled))⟩
      | unit v => exact ⟨trivial, .inl trivial⟩

/-- A power of two numbers is the whole power that its exponent denotes. -/
theorem value_of_pow {a k : Double} (h : pow exponentSpan span (number a) (number k) = .ok o) :
    ∃ n, k.toInt? = some n ∧ o = number (a.power n) := by
  obtain ⟨f, outcome, same⟩ := pow_outcome (number a) (number k)
  rw [same] at h
  cases outcome with
  | badExponent found => cases h
  | largeExponent whole large => cases h
  | @ofNumber a k n whole =>
      cases h
      exact ⟨n, whole, rfl⟩

/-- The exponent of a power is finite, and the base of a finite power is so or is dropped. -/
theorem isFinite_of_pow (h : pow exponentSpan span left right = .ok o) (finite : o.IsFinite) :
    (left.IsFinite ∨ ∃ a k, left = number a ∧ right = number k ∧ DropsBase a k) ∧
      right.IsFinite := by
  obtain ⟨f, outcome, same⟩ := pow_outcome left right
  rw [same] at h
  cases outcome with
  | badExponent found => cases h
  | largeExponent whole large => cases h
  | ofUnit whole => exact ⟨.inl trivial, isFinite_of_toInt? whole⟩
  | @ofNumber a k n whole =>
      cases h
      refine ⟨?_, isFinite_of_toInt? whole⟩
      cases base : a.isFinite with
      | true => exact .inl base
      | false =>
          refine .inr ⟨a, k, rfl, rfl, n, whole, ?_⟩
          rcases Binary.of_isFinite_power finite with same | zeroth | negative
          · exact absurd same (by simp [base])
          · exact .inl ⟨base, zeroth⟩
          · exact .inr negative

/-- The operands of an operation with a finite value are finite, but for a base and a divisor that
    the operation drops. -/
theorem isFinite_of_apply (h : apply op exponentSpan span left right = .ok o)
    (finite : o.IsFinite) :
    (left.IsFinite ∨
      op = .pow ∧ ∃ a k, left = number a ∧ right = number k ∧ DropsBase a k) ∧
    (right.IsFinite ∨
      op = .div ∧ ∃ a b, left = number a ∧ right = number b ∧ DropsDivisor a b) := by
  cases op with
  | add =>
      obtain ⟨l, r⟩ := isFinite_of_combine h finite
      exact ⟨.inl l, .inl r⟩
  | sub =>
      obtain ⟨l, r⟩ := isFinite_of_combine h finite
      exact ⟨.inl l, .inl r⟩
  | mul =>
      obtain ⟨l, r⟩ := isFinite_of_mul h finite
      exact ⟨.inl l, .inl r⟩
  | div =>
      obtain ⟨l, r | dropped⟩ := isFinite_of_div h finite
      · exact ⟨.inl l, .inl r⟩
      · exact ⟨.inl l, .inr ⟨rfl, dropped⟩⟩
  | pow =>
      obtain ⟨l | dropped, r⟩ := isFinite_of_pow h finite
      · exact ⟨.inl l, .inl r⟩
      · exact ⟨.inr ⟨rfl, dropped⟩, .inl r⟩

theorem value_of_dropsBase {a k : Double} (dropped : DropsBase a k)
    (h : pow exponentSpan span (number a) (number k) = .ok o) :
    ∃ v, o = number v ∧ (v = .one ∨ v.IsZero) := by
  obtain ⟨m, whole, rfl⟩ := value_of_pow h
  obtain ⟨n, same, cases⟩ := dropped
  obtain rfl : m = n := Option.some.inj (whole.symm.trans same)
  refine ⟨_, rfl, ?_⟩
  rcases cases with ⟨_, rfl⟩ | ⟨negative, s, rfl⟩
  · exact .inl (Binary.power_zero a)
  · exact .inr (Binary.isZero_power_infinite negative)

theorem isZero_of_dropsDivisor {a b : Double} (dropped : DropsDivisor a b) : (a / b).IsZero := by
  obtain ⟨finite, s, rfl⟩ := dropped
  exact Binary.isZero_div_infinite finite

end Operand

/-! ### Formulas -/

namespace Evaluator

variable {e : Evaluator} {expr part node : Expr}

/-- The tree is a power or a quotient of numbers that drops an operand, and the node is that operand
    or a part of it. -/
inductive Drops (e : Evaluator) : Expr → Expr → Prop where
  | base {left right node : Expr} {span : Span} {a k : Double}
      (isLeft : e.fold left = .ok (.number a)) (isRight : e.fold right = .ok (.number k))
      (drops : Operand.DropsBase a k) (mem : node ∈ left.subexpressions) :
      Drops e (.binary .pow left right span) node
  | divisor {left right node : Expr} {span : Span} {a b : Double}
      (isLeft : e.fold left = .ok (.number a)) (isRight : e.fold right = .ok (.number b))
      (drops : Operand.DropsDivisor a b) (mem : node ∈ right.subexpressions) :
      Drops e (.binary .div left right span) node

/-- Within the tree the node is dropped, by an operation that comes to one or to zero. -/
def Absorbs (e : Evaluator) (expr node : Expr) : Prop :=
  ∃ operation ∈ expr.subexpressions, e.Drops operation node ∧
    ∃ v, e.fold operation = .ok (.number v) ∧ (v = .one ∨ v.IsZero)

theorem Absorbs.mono (h : e.Absorbs part node)
    (within : part.subexpressions ⊆ expr.subexpressions) : e.Absorbs expr node := by
  obtain ⟨operation, mem, drops⟩ := h
  exact ⟨operation, within mem, drops⟩

/-- What drops a node and has a value has one or zero as its value. -/
theorem Drops.absorbs {o : Operand} (h : e.Drops expr node) (value : e.fold expr = .ok o) :
    e.Absorbs expr node := by
  refine ⟨expr, expr.self_mem_subexpressions, h, ?_⟩
  cases h with
  | base isLeft isRight drops mem =>
      have applied := value
      rw [fold_binary, isLeft, isRight] at applied
      obtain ⟨v, rfl, small⟩ := Operand.value_of_dropsBase drops (mapError_eq_ok_iff.1 applied)
      exact ⟨v, value, small⟩
  | @divisor _ _ _ _ a b isLeft isRight drops mem =>
      have applied := value
      rw [fold_binary, isLeft, isRight] at applied
      cases applied
      exact ⟨a / b, value, .inr (Operand.isZero_of_dropsDivisor drops)⟩

/-- A tree with a finite value has finite numbers in it, but for what is dropped. -/
theorem isFinite_or_absorbs_of_fold {o : Operand} (value : e.fold expr = .ok o)
    (finite : o.IsFinite) :
    ∀ node ∈ expr.subexpressions, ∀ k, e.fold node = .ok (.number k) →
      k.isFinite = true ∨ e.Absorbs expr node := by
  induction expr generalizing o with
  | name text span =>
      intro node mem k number
      obtain rfl := List.mem_singleton.1 mem
      obtain rfl := Except.ok.inj (number.symm.trans value)
      exact .inl finite
  | number literal span =>
      intro node mem k number
      obtain rfl := List.mem_singleton.1 mem
      obtain rfl := Except.ok.inj (number.symm.trans value)
      exact .inl finite
  | neg operand span ih =>
      intro node mem k number
      rcases List.mem_cons.1 mem with rfl | inner
      · obtain rfl := Except.ok.inj (number.symm.trans value)
        exact .inl finite
      rw [fold_neg] at value
      obtain ⟨o, isOperand, negated⟩ := bind_eq_ok_iff.1 value
      obtain ⟨a, rfl, rfl⟩ := Operand.negate_eq_ok_iff.1 (mapError_eq_ok_iff.1 negated)
      have finite : a.isFinite = true := (Binary.isFinite_neg a).symm.trans finite
      rcases ih isOperand finite node inner k number with same | absorbed
      · exact .inl same
      · exact .inr (absorbed.mono Expr.operand_subset)
  | binary op left right span ihLeft ihRight =>
      intro node mem k number
      rcases List.mem_cons.1 mem with rfl | inner
      · obtain rfl := Except.ok.inj (number.symm.trans value)
        exact .inl finite
      have whole := value
      rw [fold_binary] at value
      obtain ⟨l, isLeft, rest⟩ := bind_eq_ok_iff.1 value
      obtain ⟨r, isRight, applied⟩ := bind_eq_ok_iff.1 rest
      obtain ⟨finiteLeft, finiteRight⟩ :=
        Operand.isFinite_of_apply (mapError_eq_ok_iff.1 applied) finite
      rcases List.mem_append.1 inner with inLeft | inRight
      · rcases finiteLeft with finiteLeft | ⟨rfl, a, b, rfl, rfl, dropped⟩
        · rcases ihLeft isLeft finiteLeft node inLeft k number with same | absorbed
          · exact .inl same
          · exact .inr (absorbed.mono Expr.left_subset)
        · exact .inr (Drops.absorbs (.base isLeft isRight dropped inLeft) whole)
      · rcases finiteRight with finiteRight | ⟨rfl, a, b, rfl, rfl, dropped⟩
        · rcases ihRight isRight finiteRight node inRight k number with same | absorbed
          · exact .inl same
          · exact .inr (absorbed.mono Expr.right_subset)
        · exact .inr (Drops.absorbs (.divisor isLeft isRight dropped inRight) whole)

/-- In a formula that denotes a unit every subexpression that is a number is a finite one, unless an
    operation of the formula drops it: as an infinite divisor, under a zeroth power, or as infinity
    under a negative power. -/
theorem evaluate_isFinite_or_absorbs {formula : String} {u : MeasureUnit}
    (evaluated : e.evaluate formula = .ok u) :
    ∃ expr, Expr.parse formula = .ok expr ∧
      ∀ node ∈ expr.subexpressions, ∀ k, e.fold node = .ok (.number k) →
        k.isFinite = true ∨ e.Absorbs expr node := by
  obtain ⟨expr, o, parsed, folded, made⟩ := evaluate_eq_ok_iff.1 evaluated
  exact ⟨expr, parsed, isFinite_or_absorbs_of_fold folded (Operand.isFinite_of_toUnit made)⟩

/-- A divisor that is infinite, in an exponent. -/
theorem parse_infinite_divisor : Expr.parse "m^(1/(1/0))" =
    .ok (.binary .pow (.name "m" ⟨0, 1⟩)
      (.binary .div (.number (.whole 1) ⟨3, 4⟩)
        (.binary .div (.number (.whole 1) ⟨6, 7⟩) (.number (.whole 0) ⟨8, 9⟩) ⟨5, 10⟩) ⟨2, 11⟩)
      ⟨0, 11⟩) := by
  have lexed : Token.lex "m^(1/(1/0))" =
      .ok [⟨.name, ⟨0, 1⟩, "m"⟩, ⟨.caret, ⟨1, 2⟩, "^"⟩, ⟨.leftParen, ⟨2, 3⟩, "("⟩,
        ⟨.number, ⟨3, 4⟩, "1"⟩, ⟨.slash, ⟨4, 5⟩, "/"⟩, ⟨.leftParen, ⟨5, 6⟩, "("⟩,
        ⟨.number, ⟨6, 7⟩, "1"⟩, ⟨.slash, ⟨7, 8⟩, "/"⟩, ⟨.number, ⟨8, 9⟩, "0"⟩,
        ⟨.rightParen, ⟨9, 10⟩, ")"⟩, ⟨.rightParen, ⟨10, 11⟩, ")"⟩, ⟨.finish, .point 11, ""⟩] := by
    decide +kernel
  have one : Literal.read "1" = .ok (.whole 1) := by decide +kernel
  have zero : Literal.read "0" = .ok (.whole 0) := by decide +kernel
  have closes (level stop : Nat) (rest : List Token) :
      Formula.Stops level (⟨.rightParen, ⟨stop, stop + 1⟩, ")"⟩ :: rest) :=
    Formula.stops_of_no_operator rfl level rest
  have ends (level : Nat) : Formula.Stops level [⟨.finish, .point 11, ""⟩] :=
    Formula.stops_of_no_operator rfl level []
  have divisor (rest : List Token) : Formula.Reads (.level 1)
      (⟨.number, ⟨6, 7⟩, "1"⟩ :: ⟨.slash, ⟨7, 8⟩, "/"⟩ :: ⟨.number, ⟨8, 9⟩, "0"⟩ ::
        ⟨.rightParen, ⟨9, 10⟩, ")"⟩ :: rest)
      (.binary .div (.number (.whole 1) ⟨6, 7⟩) (.number (.whole 0) ⟨8, 9⟩) ⟨6, 9⟩)
      (⟨.rightParen, ⟨9, 10⟩, ")"⟩ :: rest) :=
    .level (.number rfl one) (.step rfl (by decide)
      (.level (.number rfl zero) (.stop (closes 3 9 rest))) (.stop (closes 1 9 rest)))
  have exponent (rest : List Token) : Formula.Reads (.level 1)
      (⟨.number, ⟨3, 4⟩, "1"⟩ :: ⟨.slash, ⟨4, 5⟩, "/"⟩ :: ⟨.leftParen, ⟨5, 6⟩, "("⟩ ::
        ⟨.number, ⟨6, 7⟩, "1"⟩ :: ⟨.slash, ⟨7, 8⟩, "/"⟩ :: ⟨.number, ⟨8, 9⟩, "0"⟩ ::
        ⟨.rightParen, ⟨9, 10⟩, ")"⟩ :: ⟨.rightParen, ⟨10, 11⟩, ")"⟩ :: rest)
      (.binary .div (.number (.whole 1) ⟨3, 4⟩)
        (.binary .div (.number (.whole 1) ⟨6, 7⟩) (.number (.whole 0) ⟨8, 9⟩) ⟨5, 10⟩) ⟨3, 10⟩)
      (⟨.rightParen, ⟨10, 11⟩, ")"⟩ :: rest) :=
    .level (.number rfl one) (.step rfl (by decide)
      (.level (.group rfl rfl (divisor _)) (.stop (closes 3 10 rest))) (.stop (closes 1 10 rest)))
  exact Formula.parse_of_reads lexed (.level (.name rfl) (.step rfl (by decide)
    (.level (.group rfl rfl (exponent _)) (.stop (ends 4))) (.stop (ends 1)))) (by simp)

/-- The division by zero is dropped, and the formula denotes the dimensionless unit. -/
theorem evaluate_isFinite_or_absorbs_divisor :
    (ofTable .defaults).evaluate "m^(1/(1/0))" = .ok .one ∧
      ∃ expr, Expr.parse "m^(1/(1/0))" = .ok expr ∧
        ∀ node ∈ expr.subexpressions, ∀ k, (ofTable .defaults).fold node = .ok (.number k) →
          k.isFinite = true ∨ (ofTable .defaults).Absorbs expr node := by
  have evaluated : (ofTable .defaults).evaluate "m^(1/(1/0))" = .ok .one := by
    rw [evaluate_eq_of_parse parse_infinite_divisor]
    decide +kernel
  exact ⟨evaluated, evaluate_isFinite_or_absorbs evaluated⟩

/-- A formula that denotes a unit can divide by zero. -/
theorem evaluate_absorbs_division_by_zero :
    ¬∀ (e : Evaluator) (formula : String) (u : MeasureUnit) (expr : Expr),
      e.evaluate formula = .ok u → Expr.parse formula = .ok expr →
        ∀ node ∈ expr.subexpressions, ∀ k, e.fold node = .ok (.number k) →
          k.isFinite = true := by
  intro always
  have evaluated : (ofTable .defaults).evaluate "m^(1/(1/0))" = .ok .one := by
    rw [evaluate_eq_of_parse parse_infinite_divisor]
    decide +kernel
  have infinite : (ofTable .defaults).fold
      (.binary .div (.number (.whole 1) ⟨6, 7⟩) (.number (.whole 0) ⟨8, 9⟩) ⟨5, 10⟩) =
        .ok (.number (.infinite false)) := by
    decide +kernel
  have finite := always _ _ _ _ evaluated parse_infinite_divisor _
    (by simp [Expr.subexpressions]) _ infinite
  cases finite

end Evaluator

end Metrology
