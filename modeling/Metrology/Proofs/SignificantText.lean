/-
Module: Metrology.Proofs.SignificantText
Layer: Proofs
Purpose: Values as they are printed to a number of significant digits. Both forms of the text denote
  the value rounded to nearest on a decimal grid. The positional form is trimmed, and trimming only
  drops zeros of a fraction; the form with an exponent is not, so it keeps the zeros that its last
  digits may be. The grid of the positional form goes by the logarithm in double precision: where
  that comes out as the next integer, the last digit that is asked for is left out.
Imports: Mathlib.Data.List.DropRight, Metrology.Proofs.DecimalGrid, Metrology.Proofs.ValueText
Main exports: decimalValue?, IsTrimmed, trimFraction_point, Binary.fixed_shows,
  Binary.scientific_shows, significant?_shows
-/
import Mathlib.Data.List.DropRight
import Metrology.Proofs.DecimalGrid
import Metrology.Proofs.ValueText

namespace Metrology

/-! ### Texts and the numbers that they denote -/

/-- The number that a decimal denotes. -/
def Decimal.toRat (d : Decimal) : ℚ := d.significand * 10 ^ d.exponent

/-- The number that a text denotes, as a decimal with an optional minus. -/
def decimalValue? (text : List Char) : Option ℚ :=
  match text with
  | '-' :: rest => (Decimal.read? rest).map fun d => -d.toRat
  | rest => (Decimal.read? rest).map Decimal.toRat

/-- The part of a text before an exponent. -/
def mantissa (text : List Char) : List Char := text.takeWhile (· != 'e')

/-- What follows a point does not end in a zero, and something follows it. -/
def IsTrimmed (text : List Char) : Prop :=
  '.' ∈ mantissa text → (mantissa text).getLast? ≠ some '0' ∧ (mantissa text).getLast? ≠ some '.'

theorem mantissa_of_notMem {text : List Char} (noMark : 'e' ∉ text) : mantissa text = text := by
  refine List.takeWhile_eq_self_iff.2 fun c mem => ?_
  rw [bne_iff_ne]
  rintro rfl
  exact noMark mem

theorem isTrimmed_of_notMem {text : List Char} (noPoint : '.' ∉ mantissa text) : IsTrimmed text :=
  fun mem => absurd mem noPoint

/-- A fraction is trimmed if it has digits and the last one is not a zero. -/
theorem isTrimmed_iff {text front back : List Char} (point : mantissa text = front ++ '.' :: back)
    (noPoint : '.' ∉ back) : IsTrimmed text ↔ back ≠ [] ∧ back.getLast? ≠ some '0' := by
  rw [IsTrimmed, point]
  rcases back.eq_nil_or_concat' with rfl | ⟨back, last, rfl⟩
  · simp
  · have notPoint : last ≠ '.' := by
      rintro rfl
      simp at noPoint
    have ending : (front ++ '.' :: (back ++ [last])).getLast? = some last := by
      rw [← List.cons_append, ← List.append_assoc, List.getLast?_concat]
    simp [ending, notPoint]

theorem decimalValue?_signed {negative : Bool} {body : List Char} {d : Decimal} {c : Char}
    (first : body.head? = some c) (digit : c.isDigit = true) (read : Decimal.read? body = some d) :
    decimalValue? (Layout.signText negative ++ body) =
      some (Binary.signFactor negative * d.toRat) := by
  cases negative with
  | true => simp [decimalValue?, Layout.signText, Binary.signFactor, read]
  | false =>
      obtain ⟨rest, rfl⟩ : ∃ rest, body = c :: rest := List.head?_eq_some_iff.1 first
      have noMinus : c ≠ '-' := ne_of_isDigit digit rfl
      simp [decimalValue?, Layout.signText, Binary.signFactor, noMinus, read]

/-! ### Trimming -/

theorem trimFraction_of_notMem {text : List Char} (noPoint : '.' ∉ text) :
    trimFraction text = text := by
  simp [trimFraction, noPoint]

/-- Trimming takes the zeros off a fraction, and the point if nothing else was behind it. -/
theorem trimFraction_point (front : List Char) {back : List Char} (noPoint : '.' ∉ back) :
    ∃ kept k, back = kept ++ List.replicate k '0' ∧ kept.getLast? ≠ some '0' ∧
      trimFraction (front ++ '.' :: back) = if kept = [] then front else front ++ '.' :: kept := by
  induction back using List.reverseRecOn with
  | nil => exact ⟨[], 0, rfl, by simp, by simp [trimFraction]⟩
  | append_singleton back c ih =>
      by_cases zero : c = '0'
      · subst zero
        obtain ⟨kept, k, split, last, trimmed⟩ := ih fun mem => noPoint (List.mem_append_left _ mem)
        refine ⟨kept, k + 1, by simp [split, List.replicate_succ'], last, ?_⟩
        rw [← trimmed]
        simp [trimFraction]
      · have notPoint : c ≠ '.' := by
          rintro rfl
          simp at noPoint
        refine ⟨back ++ [c], 0, by simp, by simp [zero], ?_⟩
        have reversed : (front ++ '.' :: (back ++ [c])).reverse =
            c :: (back.reverse ++ '.' :: front.reverse) := by simp
        have kept : (c :: (back.reverse ++ '.' :: front.reverse)).dropWhile (· == '0') =
            c :: (back.reverse ++ '.' :: front.reverse) := by simp [zero]
        have hasPoint : (front ++ '.' :: (back ++ [c])).contains '.' = true := by simp
        rw [trimFraction, if_pos hasPoint, reversed, kept, if_neg (by simp)]
        dsimp only
        split
        · next same => exact absurd (List.cons.inj same).1 notPoint
        · simp

/-- What is left of digits around a point denotes the same number. -/
theorem read?_kept {front kept : List Char} {k : Nat} (nonempty : front ≠ [])
    (inFront : ∀ c ∈ front, isDigitOf 10 c = true) (inKept : ∀ c ∈ kept, isDigitOf 10 c = true) :
    ∃ d, Decimal.read? (if kept = [] then front else front ++ '.' :: kept) = some d ∧
      d.toRat = numeral 10 (front ++ (kept ++ List.replicate k '0')) *
        10 ^ (-((kept.length + k : Nat) : ℤ)) := by
  have ten : (10 : ℚ) ≠ 0 := by norm_num
  rw [← List.append_assoc, numeral_append_zeros]
  split
  · next none =>
      refine ⟨_, Decimal.read?_digits nonempty inFront, ?_⟩
      subst none
      simp [Decimal.toRat, zpow_neg, ten]
  · refine ⟨_, Decimal.read?_point nonempty inFront inKept, ?_⟩
    simp [Decimal.toRat, zpow_neg, zpow_add₀, mul_assoc, ten]

theorem notMem_signText {negative : Bool} {c : Char} (other : c ≠ '-') :
    c ∉ Layout.signText negative := by
  cases negative <;> simp [Layout.signText, other]

/-- A sign before digits, with what is left of a fraction. -/
theorem kept_shows (negative : Bool) {front kept : List Char} (k : Nat) (nonempty : front ≠ [])
    (inFront : ∀ c ∈ front, c.isDigit = true) (inKept : ∀ c ∈ kept, c.isDigit = true)
    (last : kept.getLast? ≠ some '0') :
    let text := Layout.signText negative ++ (if kept = [] then front else front ++ '.' :: kept)
    decimalValue? text = some (Binary.signFactor negative *
        (numeral 10 (front ++ (kept ++ List.replicate k '0')) *
          10 ^ (-((kept.length + k : Nat) : ℤ)))) ∧
      IsTrimmed text := by
  intro text
  obtain ⟨d, read, value⟩ := read?_kept (k := k) nonempty
    (fun c mem => isDigitOf_of_isDigit (inFront c mem))
    (fun c mem => isDigitOf_of_isDigit (inKept c mem))
  obtain ⟨first, rest, rfl⟩ := List.exists_cons_of_ne_nil nonempty
  have head : (if kept = [] then first :: rest else first :: rest ++ '.' :: kept).head? =
      some first := by
    split <;> rfl
  refine ⟨?_, ?_⟩
  · rw [← value]
    exact decimalValue?_signed head (inFront first (List.mem_cons_self ..)) read
  have noPoint : ∀ {cs : List Char}, (∀ c ∈ cs, c.isDigit = true) → '.' ∉ cs :=
    fun digits mem => by simpa using digits _ mem
  have noMark : ∀ {cs : List Char}, (∀ c ∈ cs, c.isDigit = true) → 'e' ∉ cs :=
    fun digits mem => by simpa using digits _ mem
  by_cases dropped : kept = []
  · have whole : text = Layout.signText negative ++ first :: rest := by simp [text, dropped]
    apply isTrimmed_of_notMem
    intro mem
    have inText := (List.takeWhile_sublist _).subset mem
    rw [whole, List.mem_append] at inText
    exact inText.elim (notMem_signText (by decide)) (noPoint inFront)
  · have point : text = (Layout.signText negative ++ first :: rest) ++ '.' :: kept := by
      simp [text, dropped]
    have plain : 'e' ∉ text := by
      simp only [point, List.mem_append, List.mem_cons, not_or]
      exact ⟨⟨notMem_signText (by decide), by simpa using noMark inFront⟩, by decide, noMark inKept⟩
    rw [isTrimmed_iff ((mantissa_of_notMem plain).trans point) (noPoint inKept)]
    exact ⟨dropped, last⟩

/-! ### The positional form -/

namespace Binary

variable {w : Width} {units : Nat} (negative : Bool) (holds : w.Holds units)

/-- A value to a number of places is a decimal with as many places. -/
theorem toList_fixed (places : Nat) :
    ((finite negative units holds).fixed places).toList = Layout.signText negative ++
      Layout.positionalText false
        ⟨divRound .even (units * 10 ^ places) w.one, -(places : ℤ)⟩ := by
  cases places with
  | zero =>
      have noPadding : 1 - (decimalDigits (divRound .even units w.one)).length = 0 := by
        have := Nat.length_toDigits_pos (b := 10) (n := divRound .even units w.one)
        rw [decimalDigits]
        omega
      simp [fixed, Layout.positionalText, noPadding]
  | succ k =>
      have fraction : ¬ 0 ≤ -((k + 1 : Nat) : ℤ) := by omega
      have places : (- -((k + 1 : Nat) : ℤ)).toNat = k + 1 := by omega
      simp only [fixed, String.toList_ofList, Layout.positionalText, if_neg fraction, places,
        if_neg (Nat.succ_ne_zero k), List.append_assoc]

/-- The trimmed text of a value to a number of places denotes the value rounded to them. -/
theorem fixed_shows (places : Nat) :
    let text := trimFraction ((finite negative units holds).fixed places).toList
    decimalValue? text = some (signFactor negative *
        (divRound .even (units * 10 ^ places) w.one * 10 ^ (-(places : ℤ)))) ∧
      IsTrimmed text := by
  intro text
  generalize rounded : divRound .even (units * 10 ^ places) w.one = n
  have written : text = trimFraction (Layout.signText negative ++
      Layout.positionalText false ⟨n, -(places : ℤ)⟩) := by
    rw [← rounded, ← toList_fixed]
  rcases Nat.eq_zero_or_pos places with rfl | positive
  · have digits : ∀ c ∈ decimalDigits n, c.isDigit = true :=
      fun c mem => isDigit_of_mem_decimalDigits mem
    have whole : text = Layout.signText negative ++ decimalDigits n := by
      rw [written, trimFraction_of_notMem] <;> simp only [Layout.positionalText]
      · simp
      · simp only [Nat.cast_zero, neg_zero, le_refl, if_true, List.mem_append, not_or]
        exact ⟨notMem_signText (by decide), ⟨fun mem => by simpa using digits _ mem, by simp⟩,
          by simp⟩
    have value : numeral 10 (decimalDigits n) = n := positional_decimalDigits n
    have nonempty : decimalDigits n ≠ [] := Nat.toDigits_ne_nil
    have shown := kept_shows negative 0 nonempty digits (List.forall_mem_nil _) (by simp)
    simpa [whole, value] using shown
  · obtain ⟨front, back, fraction, nonempty, length, digits, value⟩ :=
      Layout.positionalText_fraction (d := ⟨n, -(places : ℤ)⟩) (by simpa using positive)
    rw [List.forall_mem_append] at digits
    have noPoint : '.' ∉ back := fun mem => by simpa using digits.2 _ mem
    obtain ⟨kept, k, split, last, trimmed⟩ :=
      trimFraction_point (Layout.signText negative ++ front) noPoint
    have point : text = Layout.signText negative ++
        (if kept = [] then front else front ++ '.' :: kept) := by
      rw [written, fraction, ← List.append_assoc, trimmed]
      split_ifs <;> simp
    have places : kept.length + k = places := by
      rw [split] at length
      simpa using length
    have shown := kept_shows negative k nonempty digits.1
      (fun c mem => digits.2 c (by simp [split, mem])) last
    rw [← split, value, places, ← point] at shown
    exact shown

end Binary

/-! ### The form with an exponent -/

theorem readNat?_decimalDigits (n : Nat) : readNat? (decimalDigits n) = some n := by
  have digits : (decimalDigits n).all (isDigitOf 10) = true :=
    List.all_eq_true.2 fun c mem => isDigitOf_of_isDigit (isDigit_of_mem_decimalDigits mem)
  have nonempty : (decimalDigits n).isEmpty = false :=
    List.isEmpty_eq_false_iff.2 Nat.toDigits_ne_nil
  simp [readNat?, digits, nonempty, positional_decimalDigits]

theorem readInt?_cons {c : Char} {cs : List Char} (noPlus : c ≠ '+') (noMinus : c ≠ '-') :
    readInt? (c :: cs) = (readNat? (c :: cs)).map fun n => (n : ℤ) := by
  unfold readInt?
  split
  · next same => exact absurd (List.cons.inj same).1 noPlus
  · next same => exact absurd (List.cons.inj same).1 noMinus
  · rfl

theorem readInt?_exponentText (e : ℤ) :
    ∃ cs, Layout.exponentText false e = 'e' :: cs ∧ readInt? cs = some e := by
  rcases Int.lt_or_le e 0 with negative | positive
  · refine ⟨'-' :: decimalDigits e.natAbs, by simp [Layout.exponentText, negative], ?_⟩
    have value : -(e.natAbs : ℤ) = e := by omega
    rw [readInt?, readNat?_decimalDigits]
    exact congrArg some value
  · refine ⟨decimalDigits e.natAbs, by simp [Layout.exponentText, Int.not_lt.2 positive], ?_⟩
    have value : (e.natAbs : ℤ) = e := by omega
    have read := readNat?_decimalDigits e.natAbs
    obtain ⟨c, cs, shape, digit⟩ := exists_cons_decimalDigits e.natAbs
    rw [shape] at read ⊢
    rw [readInt?_cons (ne_of_isDigit digit rfl) (ne_of_isDigit digit rfl), read]
    exact congrArg some value

theorem length_decimalDigits {n k : Nat} (lower : 10 ^ k ≤ n) (upper : n < 10 ^ (k + 1)) :
    (decimalDigits n).length = k + 1 := by
  apply Nat.le_antisymm
  · exact (Nat.length_toDigits_le_iff (by decide) (Nat.succ_pos k)).2 upper
  · rcases Nat.eq_zero_or_pos k with rfl | positive
    · exact Nat.length_toDigits_pos
    · have longer := (Nat.length_toDigits_le_iff (b := 10) (n := n) (by decide) positive).not.2
        (Nat.not_lt.2 lower)
      exact Nat.lt_of_not_le longer

/-- The last digit is a zero exactly if the number is a multiple of ten. -/
theorem getLast?_decimalDigits_eq_zero_iff (n : Nat) :
    (decimalDigits n).getLast? = some '0' ↔ 10 ∣ n := by
  have last : (decimalDigits n).getLast? = some (n % 10).digitChar := by
    rw [decimalDigits, Nat.toDigits_eq_if (by decide)]
    split
    · next small => rw [Nat.mod_eq_of_lt small, List.getLast?_singleton]
    · rw [List.getLast?_concat]
  have zero : ∀ r < 10, r.digitChar = '0' ↔ r = 0 := by decide
  rw [last, Option.some.injEq, zero _ (Nat.mod_lt _ (by decide)), Nat.dvd_iff_mod_eq_zero]

namespace Decimal

/-- Digits, a point if more digits follow, and an exponent. -/
theorem read?_scientificText {c : Char} {rest : List Char} (lead : ℤ)
    (digits : ∀ x ∈ c :: rest, isDigitOf 10 x = true) :
    read? (Layout.scientificText false lead (c :: rest)) =
      some ⟨numeral 10 (c :: rest), lead - rest.length⟩ := by
  obtain ⟨cs, mark, exponent⟩ := readInt?_exponentText lead
  obtain ⟨first, others⟩ := List.forall_mem_cons.1 digits
  have noMark : isDigitOf 10 'e' = false := rfl
  have noPoint : isDigitOf 10 '.' = false := rfl
  cases rest with
  | nil =>
      simp [Layout.scientificText, mark, read?, first, noMark, exponent,
        ofDigits, numeral, digitValues]
  | cons d rest =>
      have whole : (c :: '.' :: (d :: rest) ++ 'e' :: cs).takeWhile (isDigitOf 10) = [c] := by
        simp [first, noPoint]
      have afterWhole : (c :: '.' :: (d :: rest) ++ 'e' :: cs).dropWhile (isDigitOf 10) =
          '.' :: (d :: rest ++ 'e' :: cs) := by
        simp [first, noPoint]
      have fraction : (d :: rest ++ 'e' :: cs).takeWhile (isDigitOf 10) = d :: rest := by
        rw [List.takeWhile_append_of_pos others]
        simp [noMark]
      have tail : (d :: rest ++ 'e' :: cs).dropWhile (isDigitOf 10) = 'e' :: cs := by
        rw [List.dropWhile_append_of_pos others]
        simp [noMark]
      have together : digitValues 10 [c] ++ digitValues 10 (d :: rest) =
          digitValues 10 (c :: d :: rest) := (digitValues_append 10 [c] (d :: rest)).symm
      simp only [Layout.scientificText, mark, read?, whole, afterWhole, fraction, tail, exponent]
      simp [ofDigits, numeral, together, length_digitValues others]

end Decimal

theorem mantissa_append {front back : List Char} (noMark : 'e' ∉ front) :
    mantissa (front ++ 'e' :: back) = front := by
  have plain : ∀ c ∈ front, (c != 'e') = true := by
    intro c mem
    rw [bne_iff_ne]
    rintro rfl
    exact noMark mem
  rw [mantissa, List.takeWhile_append_of_pos plain]
  simp

/-- A form with an exponent is trimmed if it has one digit, or the last one is not a zero. -/
theorem isTrimmed_scientificText {negative : Bool} {c : Char} {rest : List Char} (lead : ℤ)
    (digits : ∀ x ∈ c :: rest, x.isDigit = true) :
    IsTrimmed (Layout.signText negative ++ Layout.scientificText false lead (c :: rest)) ↔
      rest = [] ∨ (c :: rest).getLast? ≠ some '0' := by
  obtain ⟨cs, mark, -⟩ := readInt?_exponentText lead
  have noPoint : '.' ∉ c :: rest := fun mem => by simpa using digits _ mem
  have noMark : 'e' ∉ c :: rest := fun mem => by simpa using digits _ mem
  have signPoint : '.' ∉ Layout.signText negative := notMem_signText (by decide)
  have signMark : 'e' ∉ Layout.signText negative := notMem_signText (by decide)
  cases rest with
  | nil =>
      have before : mantissa (Layout.signText negative ++
          Layout.scientificText false lead [c]) = Layout.signText negative ++ [c] := by
        rw [Layout.scientificText, mark, List.append_cons]
        exact mantissa_append (by simpa [signMark] using noMark)
      refine iff_of_true (isTrimmed_of_notMem ?_) (.inl rfl)
      rw [before]
      simpa [signPoint] using noPoint
  | cons d rest =>
      have before : mantissa (Layout.signText negative ++
          Layout.scientificText false lead (c :: d :: rest)) =
          (Layout.signText negative ++ [c]) ++ '.' :: d :: rest := by
        have shape : Layout.signText negative ++ Layout.scientificText false lead (c :: d :: rest) =
            (Layout.signText negative ++ [c] ++ '.' :: d :: rest) ++ 'e' :: cs := by
          simp [Layout.scientificText, mark]
        rw [shape]
        exact mantissa_append (by simpa [signMark] using noMark)
      rw [isTrimmed_iff before fun mem => noPoint (List.mem_cons_of_mem _ mem),
        List.getLast?_cons_cons]
      simp

namespace Binary

variable {w : Width} {units : Nat} (negative : Bool) (holds : w.Holds units)

/-- On the grid that many places behind the leading one, a value has one digit more than that. -/
theorem grid_bounds (pos : 0 < units) (places : Nat) :
    10 ^ places * gridDen w (leadingExponent units w.one - places) ≤
        gridNum units (leadingExponent units w.one - places) ∧
      gridNum units (leadingExponent units w.one - places) <
        10 ^ (places + 1) * gridDen w (leadingExponent units w.one - places) := by
  have posQ : (0 : ℚ) < units / w.one := div_pos (by exact_mod_cast pos) (one_pos_rat w)
  have lower := Int.zpow_log_le_self (b := 10) (by decide) posQ
  have upper := Int.lt_zpow_succ_log_self (b := 10) (by decide) ((units : ℚ) / w.one)
  rw [← leadingExponent_eq_log pos w.one_pos, Nat.cast_ofNat] at lower upper
  generalize leadingExponent units w.one = lead at lower upper ⊢
  have ten : (10 : ℚ) ≠ 0 := by norm_num
  have step : (0 : ℚ) < 10 ^ (lead - places) := zpow_pos (by norm_num) _
  have den : (0 : ℚ) < gridDen w (lead - places) := by exact_mod_cast gridDen_pos w _
  rw [← gridNum_div_gridDen units (lead - places)] at lower upper
  have low : (10 : ℚ) ^ lead = 10 ^ places * 10 ^ (lead - places) := by
    rw [← zpow_natCast, ← zpow_add₀ ten]
    ring_nf
  have high : (10 : ℚ) ^ (lead + 1) = 10 ^ (places + 1) * 10 ^ (lead - places) := by
    rw [← zpow_natCast, ← zpow_add₀ ten]
    push_cast
    ring_nf
  constructor
  · rw [low] at lower
    have bound := (le_div_iff₀ den).1 (le_of_mul_le_mul_right lower step)
    exact_mod_cast bound
  · rw [high] at upper
    have bound := (div_lt_iff₀ den).1 (lt_of_mul_lt_mul_right upper step.le)
    exact_mod_cast bound

/-- The digits of the form with an exponent: they are those of the rounded value, without the last
    one if rounding carried into a new digit. -/
theorem exists_scientific_digits (pos : 0 < units) (places : Nat) :
    let grid := leadingExponent units w.one - places
    let rounded := divRound .even (gridNum units grid) (gridDen w grid)
    ∃ (m : Nat) (lead : ℤ), 10 ^ places ≤ m ∧ m < 10 ^ (places + 1) ∧
      ((finite negative units holds).scientific places).toList =
        Layout.signText negative ++ Layout.scientificText false lead (decimalDigits m) ∧
      (m : ℚ) * 10 ^ (lead - places) = rounded * 10 ^ grid ∧
      (places ≠ 0 → (10 ∣ m ↔ 10 ∣ rounded)) := by
  intro grid rounded
  obtain ⟨lower, upper⟩ := grid_bounds (w := w) pos places
  have den := gridDen_pos w grid
  have atLeast : 10 ^ places ≤ gridNum units grid / gridDen w grid :=
    (Nat.le_div_iff_mul_le den).2 lower
  have below : gridNum units grid / gridDen w grid < 10 ^ (places + 1) :=
    (Nat.div_lt_iff_lt_mul den).2 upper
  have neighbour : rounded = _ ∨ rounded = _ + 1 :=
    divRound_eq_or .even (gridNum units grid) (gridDen w grid)
  have notZero : units ≠ 0 := Nat.ne_of_gt pos
  by_cases carried : 10 ^ (places + 1) ≤ rounded
  · have whole : rounded = 10 ^ (places + 1) := by omega
    refine ⟨10 ^ places, leadingExponent units w.one + 1, le_rfl,
      Nat.pow_lt_pow_right (by decide) (Nat.lt_succ_self _), ?_, ?_, ?_⟩
    · have shorter : rounded / 10 = 10 ^ places := by
        rw [whole, Nat.pow_succ, Nat.mul_div_cancel _ (by decide)]
      simp only [scientific, if_neg notZero, String.toList_ofList]
      change Layout.signText negative ++ Layout.scientificText false
        (if decide (10 ^ (places + 1) ≤ rounded) = true then _ else _)
        (decimalDigits
          (if decide (10 ^ (places + 1) ≤ rounded) = true then rounded / 10 else _)) = _
      rw [if_pos (by simpa using carried), if_pos (by simpa using carried), shorter]
    · have ten : (10 : ℚ) ≠ 0 := by norm_num
      rw [whole]
      push_cast
      rw [← zpow_natCast, ← zpow_natCast, ← zpow_add₀ ten, ← zpow_add₀ ten]
      congr 1
      simp only [grid]
      omega
    · intro some
      rw [whole]
      exact iff_of_true (dvd_pow_self 10 some) (dvd_pow_self 10 (Nat.succ_ne_zero _))
  · refine ⟨rounded, leadingExponent units w.one, by omega, by omega, ?_, rfl, fun _ => Iff.rfl⟩
    simp only [scientific, if_neg notZero, String.toList_ofList]
    change Layout.signText negative ++ Layout.scientificText false
      (if decide (10 ^ (places + 1) ≤ rounded) = true then _ else _)
      (decimalDigits (if decide (10 ^ (places + 1) ≤ rounded) = true then _ else rounded)) = _
    rw [if_neg (by simpa using carried), if_neg (by simpa using carried)]

/-- The text with an exponent denotes the value rounded to as many digits, and it is trimmed unless
    the last of them is a zero behind the point. -/
theorem scientific_shows (pos : 0 < units) (places : Nat) :
    let grid := leadingExponent units w.one - places
    let rounded := divRound .even (gridNum units grid) (gridDen w grid)
    let text := ((finite negative units holds).scientific places).toList
    decimalValue? text = some (signFactor negative * (rounded * 10 ^ grid)) ∧
      (IsTrimmed text ↔ places = 0 ∨ ¬ 10 ∣ rounded) := by
  intro grid rounded text
  obtain ⟨m, lead, lower, upper, written, value, zeros⟩ :=
    exists_scientific_digits negative holds pos places
  have length := length_decimalDigits lower upper
  have last := getLast?_decimalDigits_eq_zero_iff m
  have number : numeral 10 (decimalDigits m) = m := positional_decimalDigits m
  have digits : ∀ c ∈ decimalDigits m, c.isDigit = true :=
    fun c mem => isDigit_of_mem_decimalDigits mem
  obtain ⟨c, rest, shape, first⟩ := exists_cons_decimalDigits m
  rw [shape] at length last number digits written
  have behind : rest.length = places := by simpa using length
  have read := Decimal.read?_scientificText lead
    fun x mem => isDigitOf_of_isDigit (digits x mem)
  rw [number, behind] at read
  have head : (Layout.scientificText false lead (c :: rest)).head? = some c := by
    cases rest <;> rfl
  constructor
  · rw [← value]
    change decimalValue? ((finite negative units holds).scientific places).toList = _
    rw [written]
    exact decimalValue?_signed head first read
  · change IsTrimmed ((finite negative units holds).scientific places).toList ↔ _
    rw [written, isTrimmed_scientificText lead digits, ne_eq, last, ← List.length_eq_zero_iff,
      behind]
    by_cases zero : places = 0
    · simp [zero]
    · rw [zeros zero]

end Binary

/-! ### Significant digits -/

/-- The digits are written around a point, without an exponent. -/
def IsPositional (precision units : Nat) : Prop :=
  0 ≤ placesFor precision units ∧ placesFor precision units ≤ mostPlaces

instance (precision units : Nat) : Decidable (IsPositional precision units) :=
  inferInstanceAs (Decidable (_ ∧ _))

/-- The place of the last one of so many significant digits. -/
def lastPlace (q : ℚ) (precision : Nat) : ℤ := Int.log 10 |q| - precision + 1

variable {units precision : Nat} (negative : Bool) (holds : Width.double.Holds units)

theorem placesFor_eq (narrow : precision ≤ 17) (units : Nat) :
    placesFor precision units = precision - 1 - logFloor units :=
  have small : Int.bmod precision (2 ^ 64) = precision :=
    Int.bmod_eq_of_le (by norm_num) (by norm_num; omega)
  congrArg (fun signed => signed - 1 - logFloor units) small

theorem abs_toRat_finite :
    |(Binary.finite negative units holds : Double).toRat| = units / Width.double.one := by
  have nonneg : (0 : ℚ) ≤ units / Width.double.one :=
    div_nonneg (Nat.cast_nonneg _) (Nat.cast_nonneg _)
  rw [Binary.toRat, Binary.abs_signFactor_mul, abs_of_nonneg nonneg]

theorem signFactor_mul_toRat :
    Binary.signFactor negative * (Binary.finite negative units holds : Double).toRat =
      |(Binary.finite negative units holds : Double).toRat| := by
  have twice : Binary.signFactor negative * Binary.signFactor negative = 1 := by
    cases negative <;> norm_num [Binary.signFactor]
  rw [abs_toRat_finite, Binary.toRat, ← mul_assoc, twice, one_mul]

/-- A multiple of a grid's step is one of the next coarser grid's if it is ten times another. -/
theorem exists_multiple_iff (negative : Bool) (n : Nat) (grid : ℤ) :
    (∃ m : ℤ, Binary.signFactor negative * (n * 10 ^ grid) = m * 10 ^ (grid + 1)) ↔ 10 ∣ n := by
  have step : (10 : ℚ) ^ grid ≠ 0 := zpow_ne_zero _ (by norm_num)
  have same : ∀ m : ℤ, Binary.signFactor negative * (n * 10 ^ grid) = m * 10 ^ (grid + 1) ↔
      Binary.signFactor negative * n = m * 10 := by
    intro m
    rw [zpow_add_one₀ (by norm_num), ← mul_assoc, mul_comm _ (10 : ℚ), ← mul_assoc]
    exact mul_left_inj' step
  simp only [same]
  constructor
  · rintro ⟨m, equal⟩
    have whole : (n : ℤ) = m * 10 ∨ (n : ℤ) = -m * 10 := by
      cases negative with
      | false =>
          rw [Binary.signFactor, if_neg (by decide), one_mul] at equal
          exact .inl (by exact_mod_cast equal)
      | true =>
          rw [Binary.signFactor, if_pos rfl, neg_one_mul, neg_eq_iff_eq_neg, ← neg_mul] at equal
          exact .inr (by exact_mod_cast equal)
    omega
  · rintro ⟨k, rfl⟩
    refine ⟨if negative then -k else k, ?_⟩
    cases negative <;> simp [Binary.signFactor] <;> ring

/-- Around a point, the text is the value rounded to the place that its logarithm asks for. -/
theorem significant?_positional (nonzero : units ≠ 0) (lower : 1 ≤ precision)
    (narrow : precision ≤ 17) (positional : IsPositional precision units) :
    let value : Double := .finite negative units holds
    ∃ text shown, significant? value precision = some text ∧
      decimalValue? text.toList = some shown ∧
      IsNearestMultiple value.toRat shown (logFloor units - precision + 1) ∧
      IsTrimmed text.toList := by
  intro value
  obtain ⟨k, places⟩ := Int.eq_ofNat_of_zero_le positional.1
  have grid : logFloor units - precision + 1 = -(k : ℤ) := by
    rw [placesFor_eq narrow] at places
    omega
  have written : significant? value precision =
      some (String.ofList (trimFraction (value.fixed k).toList)) := by
    have most := positional.2
    rw [places] at most
    have notZero : precision ≠ 0 := by omega
    simp [significant?, value, nonzero, notZero, places, most]
  have shown := Binary.fixed_shows negative holds k
  rw [← String.toList_ofList (l := trimFraction _)] at shown
  refine ⟨_, _, written, shown.1, ?_, shown.2⟩
  have nearest := (Binary.isNearestMultiple_divRound .double units (-(k : ℤ))).signFactor_mul
    negative
  rw [Binary.gridNum_neg, Binary.gridDen_neg] at nearest
  rw [grid]
  exact nearest

/-- With an exponent, the text is the value rounded to the place that is asked for. -/
theorem significant?_exponent (nonzero : units ≠ 0) (lower : 1 ≤ precision)
    (narrow : precision ≤ 17) (exponent : ¬ IsPositional precision units) :
    let value : Double := .finite negative units holds
    ∃ text shown, significant? value precision = some text ∧
      decimalValue? text.toList = some shown ∧
      IsNearestMultiple value.toRat shown (lastPlace value.toRat precision) ∧
      (IsTrimmed text.toList ↔
        precision = 1 ∨ ¬ ∃ m : ℤ, shown = m * 10 ^ (lastPlace value.toRat precision + 1)) := by
  intro value
  have pos : 0 < units := Nat.pos_of_ne_zero nonzero
  have grid : leadingExponent units Width.double.one - (precision - 1 : Nat) =
      lastPlace value.toRat precision := by
    rw [lastPlace, abs_toRat_finite negative holds, leadingExponent_eq_log pos Width.double.one_pos]
    omega
  have written : significant? value precision = some (value.scientific (precision - 1)) := by
    have notZero : precision ≠ 0 := by omega
    have fits : ¬ widestPrecision < precision - 1 := by
      rw [widestPrecision]
      omega
    rw [IsPositional] at exponent
    simp [significant?, value, nonzero, notZero, exponent, fits]
  have shown := Binary.scientific_shows negative holds pos (precision - 1)
  rw [grid] at shown
  refine ⟨_, _, written, shown.1, ?_, shown.2.trans (or_congr (by omega) (not_congr ?_))⟩
  · exact (Binary.isNearestMultiple_divRound .double units _).signFactor_mul negative
  · exact (exists_multiple_iff negative _ _).symm

variable {shown : ℚ}

/-- Rounded to the place that the logarithm asks for, a value is rounded to the place of its last
    digit unless the logarithm comes out as the next integer and the digit that is left out
    counts. -/
theorem isNearestMultiple_lastPlace_iff (nonzero : units ≠ 0) :
    let value : Double := .finite negative units holds
    IsNearestMultiple value.toRat shown (logFloor units - precision + 1) →
    (IsNearestMultiple value.toRat shown (lastPlace value.toRat precision) ↔
      logFloor units = Int.log 10 |value.toRat| ∨
        2 * |value.toRat - shown| ≤ 10 ^ lastPlace value.toRat precision) := by
  intro value nearest
  have magnitude : |value.toRat| = units / Width.double.one := abs_toRat_finite negative holds
  rw [lastPlace]
  rcases logFloor_eq_or (Nat.pos_of_ne_zero nonzero) with same | ⟨next, -⟩
  · rw [← magnitude] at same
    rw [same] at nearest
    exact iff_of_true nearest (.inl same)
  · rw [← magnitude] at next
    have coarser : logFloor units - precision + 1 =
        Int.log 10 |value.toRat| - precision + 1 + 1 := by omega
    rw [coarser] at nearest
    rw [nearest.finer_iff]
    exact (or_iff_right (by omega)).symm

/-- Up to eleven digits, the digit that is left out never counts. -/
theorem isNearestMultiple_lastPlace (nonzero : units ≠ 0) (lower : 1 ≤ precision)
    (few : precision ≤ 11) :
    let value : Double := .finite negative units holds
    IsNearestMultiple value.toRat shown (logFloor units - precision + 1) →
    IsNearestMultiple value.toRat shown (lastPlace value.toRat precision) := by
  intro value nearest
  refine (isNearestMultiple_lastPlace_iff negative holds nonzero nearest).2 ?_
  have magnitude : |value.toRat| = units / Width.double.one := abs_toRat_finite negative holds
  rcases logFloor_eq_or (Nat.pos_of_ne_zero nonzero) with same | ⟨next, close⟩
  · exact .inl (by rw [magnitude, same])
  right
  have below : |value.toRat| ≤ 10 ^ logFloor units := by
    rw [next, ← magnitude]
    exact (Int.lt_zpow_succ_log_self (by norm_num) _).le
  rw [← magnitude] at next close
  have signed : Binary.signFactor negative * value.toRat = |value.toRat| :=
    signFactor_mul_toRat negative holds
  have turned := nearest.signFactor_mul negative
  rw [← signed] at below close
  have near := turned.near_of_close lower few below close
  rw [← mul_sub, Binary.abs_signFactor_mul] at near
  have place : logFloor units - precision = lastPlace value.toRat precision := by
    rw [lastPlace]
    omega
  rw [place] at near
  exact near

/-- A value that is not zero, to at most seventeen significant digits: the text denotes the value
    rounded to nearest at the place of the last digit, unless it is positional, the logarithm comes
    out as the next integer and the digit that is left out counts, which takes more than eleven
    digits. The text is trimmed unless it has an exponent and its last digit, behind a point, is a
    zero. -/
theorem significant?_shows (nonzero : units ≠ 0) (lower : 1 ≤ precision)
    (narrow : precision ≤ 17) :
    let value : Double := .finite negative units holds
    let last := lastPlace value.toRat precision
    ∃ text shown, significant? value precision = some text ∧
      decimalValue? text.toList = some shown ∧
      (IsNearestMultiple value.toRat shown last ↔ (IsPositional precision units →
        logFloor units = Int.log 10 |value.toRat| ∨ 2 * |value.toRat - shown| ≤ 10 ^ last)) ∧
      (precision ≤ 11 → IsNearestMultiple value.toRat shown last) ∧
      (IsPositional precision units →
        IsNearestMultiple value.toRat shown (logFloor units - precision + 1)) ∧
      (IsTrimmed text.toList ↔ IsPositional precision units ∨ precision = 1 ∨
        ¬ ∃ m : ℤ, shown = m * 10 ^ (last + 1)) := by
  intro value last
  by_cases positional : IsPositional precision units
  · obtain ⟨text, shown, written, read, nearest, trimmed⟩ :=
      significant?_positional negative holds nonzero lower narrow positional
    refine ⟨text, shown, written, read, ?_, ?_, fun _ => nearest,
      iff_of_true trimmed (.inl positional)⟩
    · rw [isNearestMultiple_lastPlace_iff negative holds nonzero nearest]
      exact ⟨fun same _ => same, fun same => same positional⟩
    · exact fun few => isNearestMultiple_lastPlace negative holds nonzero lower few nearest
  · obtain ⟨text, shown, written, read, nearest, trimmed⟩ :=
      significant?_exponent negative holds nonzero lower narrow positional
    refine ⟨text, shown, written, read, iff_of_true nearest fun h => absurd h positional,
      fun _ => nearest, fun h => absurd h positional, ?_⟩
    rw [trimmed]
    exact (or_iff_right positional).symm

/-- Minus forty to four digits has no fraction to write. -/
theorem significant?_shows_forty :
    let value : Double := .finite true (40 * Width.double.one) (by decide +kernel)
    40 * Width.double.one ≠ 0 ∧ 1 ≤ 4 ∧ 4 ≤ 17 ∧ significant? value 4 = some "-40" ∧
      IsTrimmed "-40".toList ∧ ∃ shown, decimalValue? "-40".toList = some shown ∧
        IsNearestMultiple value.toRat shown (lastPlace value.toRat 4) := by
  intro value
  have nonzero : 40 * Width.double.one ≠ 0 := by decide +kernel
  have written : significant? value 4 = some "-40" := by decide +kernel
  have positional : IsPositional 4 (40 * Width.double.one) := by decide +kernel
  obtain ⟨text, shown, same, read, -, few, -, trimmed⟩ :=
    significant?_shows true (by decide +kernel) nonzero (by decide : 1 ≤ 4) (by decide)
  obtain rfl : "-40" = text := Option.some.inj (written.symm.trans same)
  exact ⟨nonzero, by decide, by decide, written, trimmed.2 (.inl positional), shown, read,
    few (by decide)⟩

/-- With an exponent, zeros stay behind the point; and of the largest value below a thousand, which
    has sixteen digits, the last digit is left out. -/
theorem significant?_keeps_zeros_loses_digit :
    significant? (.ofNat (10 ^ 20)) 3 = some "1.00e20" ∧ ¬ IsTrimmed "1.00e20".toList ∧
    let value : Double := .finite false (1000 * Width.double.one - Width.double.one / 2 ^ 43)
      (by decide +kernel)
    significant? value 16 = some "1000" ∧ decimalValue? "1000".toList = some 1000 ∧
      ¬ IsNearestMultiple value.toRat 1000 (lastPlace value.toRat 16) := by
  have mantissa : mantissa "1.00e20".toList = ['1'] ++ '.' :: ['0', '0'] := by decide
  refine ⟨by decide +kernel, ?_, by decide +kernel, by decide +kernel, ?_⟩
  · rw [isTrimmed_iff mantissa (by decide)]
    decide
  · rintro ⟨-, -, near, -⟩
    have units : (1000 * Width.double.one - Width.double.one / 2 ^ 43) * 2 ^ 43 =
        (1000 * 2 ^ 43 - 1) * Width.double.one := by decide +kernel
    have lead : leadingExponent (1000 * Width.double.one - Width.double.one / 2 ^ 43)
        Width.double.one = 2 := by decide +kernel
    have pos : 0 < 1000 * Width.double.one - Width.double.one / 2 ^ 43 := by decide +kernel
    rw [leadingExponent_eq_log pos Width.double.one_pos] at lead
    rw [lastPlace, abs_toRat_finite false, lead, Binary.toRat, Binary.signFactor,
      if_neg (by decide), one_mul] at near
    have onePos := Binary.one_pos_rat .double
    generalize 1000 * Width.double.one - Width.double.one / 2 ^ 43 = n at units near
    generalize Width.double.one = one at units near onePos
    have exact : (n : ℚ) / one = 1000 - 1 / 2 ^ 43 := by
      rw [div_eq_iff onePos.ne']
      have cast : (n : ℚ) * 2 ^ 43 = (1000 * 2 ^ 43 - 1 : Nat) * one := by exact_mod_cast units
      norm_num at cast ⊢
      linarith
    rw [exact] at near
    norm_num at near

end Metrology
