/-
Module: Metrology.Proofs.DigitSeparators
Layer: Proofs
Purpose: Separators of digits have no value. A text that completes a number still does so without
  them: an underscore stands between two digits, which can also follow one another. Nothing of the
  announcement of a base or of a superfluous zero comes about by taking them out. So the reader
  makes the same of a text with and without them.
Imports: Metrology.Proofs.LiteralValue
Main exports: NumberPlace.Continues.plainChars, withoutSeparators, Literal.Sound.plain,
  Literal.read_withoutSeparators_of_taken, Literal.read_withoutSeparators
-/
import Metrology.Proofs.LiteralValue

namespace Metrology

/-! ### Numbers without separators -/

section Place

variable {base : Base} {c : Char} {cs : List Char} {place after : NumberPlace}

/-- An underscore stands behind a digit, and only there. -/
theorem NumberPlace.Advances.of_underscore
    (advances : NumberPlace.Advances base '_' place after) :
    ∃ part, place = .digit part ∧ after = .underscore part := by
  cases advances with
  | digit digit => exact absurd rfl (Scan.plain_of_isDigitOf digit).1
  | underscore _ => exact ⟨_, rfl, rfl⟩
  | period _ isPeriod => exact absurd isPeriod (by decide)
  | mark marks _ => exact absurd rfl (Scan.ne_of_isExponentMark marks).1
  | sign signs => exact absurd signs (by decide)

/-- What completes a number at a place still does so without the separators of digits. -/
theorem NumberPlace.Continues.plainChars (complete : place.Continues base cs) :
    place.Continues base (Metrology.plainChars cs) := by
  induction cs generalizing place with
  | nil => exact complete
  | cons c cs ih =>
      obtain ⟨after, advances, others⟩ := NumberPlace.continues_cons.1 complete
      rcases Decidable.em (c = '_') with rfl | other
      · -- the digits behind the underscore go on with those before it
        obtain ⟨part, rfl, rfl⟩ := advances.of_underscore
        exact .inr (.inl (ih others))
      · rw [plainChars_cons other]
        exact NumberPlace.continues_cons.2 ⟨after, advances, ih others⟩

/-- A number begins with no underscore. -/
theorem NumberPlace.Continues.exists_cons (complete : NumberPlace.start.Continues base cs)
    (nonempty : cs ≠ []) : ∃ c rest, cs = c :: rest ∧ c ≠ '_' := by
  obtain ⟨c, rest, rfl⟩ := List.exists_cons_of_ne_nil nonempty
  refine ⟨c, rest, rfl, ?_⟩
  rintro rfl
  obtain ⟨after, advances, -⟩ := NumberPlace.continues_cons.1 complete
  obtain ⟨part, same, -⟩ := advances.of_underscore
  cases same

end Place

theorem plainChars_plainChars (cs : List Char) : plainChars (plainChars cs) = plainChars cs := by
  rw [plainChars, plainChars, List.filter_filter]
  congr 1
  funext c
  exact Bool.and_self _

/-! ### Announcements and superfluous zeros -/

/-- Behind a zero that is not superfluous stands the same character without the separators. -/
theorem plainChars_zero_cons {digits rest : List Char} {next : Char}
    (noZero : Literal.hasLeadingZero digits = false) (first : digits.head? ≠ some '_')
    (plain : plainChars digits = '0' :: next :: rest) : ∃ more, digits = '0' :: next :: more := by
  cases digits with
  | nil => cases plain
  | cons c digits =>
      have visible : c ≠ '_' := fun same => first (congrArg some same)
      rw [plainChars_cons visible] at plain
      obtain ⟨rfl, behind⟩ := List.cons.inj plain
      cases digits with
      | nil => cases behind
      | cons d digits =>
          have noUnderscore : d ≠ '_' := by
            rintro rfl
            simp [Literal.hasLeadingZero] at noZero
          rw [plainChars_cons noUnderscore] at behind
          obtain ⟨rfl, -⟩ := List.cons.inj behind
          exact ⟨digits, rfl⟩

/-- Without separators a text announces the same base. -/
theorem Base.split_plainChars {base : Base} {cs digits : List Char}
    (announced : Base.split cs = (base, digits)) (first : digits.head? ≠ some '_')
    (noZero : base = .decimal → Literal.hasLeadingZero digits = false) :
    Base.split (plainChars cs) = (base, plainChars digits) := by
  obtain rfl := Base.eq_of_split announced
  rw [plainChars_append]
  cases base with
  | hexadecimal | octal | binary => rfl
  | decimal =>
      change Base.split (plainChars digits) = _
      have same : ∀ {next rest}, plainChars digits = '0' :: next :: rest →
          ∃ more, Base.split ('0' :: next :: more) = (.decimal, digits) := by
        intro next rest plain
        obtain ⟨more, rfl⟩ := plainChars_zero_cons (noZero rfl) first plain
        exact ⟨more, announced⟩
      unfold Base.split
      split
      · next plain =>
          obtain ⟨more, other⟩ := same plain
          cases other
      · next plain =>
          obtain ⟨more, other⟩ := same plain
          cases other
      · next plain =>
          obtain ⟨more, other⟩ := same plain
          cases other
      · rfl

/-- Without separators a zero is not superfluous if it is not with them. -/
theorem Literal.hasLeadingZero_plainChars {digits : List Char} (first : digits.head? ≠ some '_')
    (noZero : hasLeadingZero digits = false) : hasLeadingZero (plainChars digits) = false := by
  generalize plain : plainChars digits = cs
  unfold hasLeadingZero
  split
  · obtain ⟨more, rfl⟩ := plainChars_zero_cons noZero first plain
    exact noZero
  · rfl

/-! ### The reader -/

/-- The text without `_`. -/
def withoutSeparators (text : String) : String := String.ofList (plainChars text.toList)

namespace Literal

variable {text : String} {base : Base} {digits : List Char}

theorem Sound.plain (h : Sound text base digits) :
    Sound (withoutSeparators text) base (plainChars digits) := by
  obtain ⟨c, rest, rfl, visible⟩ := h.complete.exists_cons h.nonempty
  have first : (c :: rest).head? ≠ some '_' := fun same => visible (Option.some.inj same)
  refine ⟨?_, ?_, fun decimal => hasLeadingZero_plainChars first (h.noZero decimal),
    h.complete.plainChars⟩
  · rw [withoutSeparators, String.toList_ofList]
    exact Base.split_plainChars h.announced first h.noZero
  · rw [plainChars_cons visible]
    exact List.cons_ne_nil c _

/-- The reader makes the same of a text that it takes with and without the separators of digits. -/
theorem read_withoutSeparators_of_taken (taken : Taken (read text)) :
    read (withoutSeparators text) = read text := by
  obtain ⟨base, digits, sound⟩ := taken.sound
  rcases Classical.em (∀ c ∈ digits, base.Inner c) with inner | separated
  · have innerPlain : ∀ c ∈ plainChars digits, base.Inner c :=
      fun c mem => inner c (List.mem_filter.1 mem).1
    rw [sound.plain.read_whole innerPlain, sound.read_whole inner, numeral, numeral,
      digitValues_plainChars]
  · -- what separates parts is no separator of digits
    have separated : ∃ c ∈ digits, ¬ base.Inner c := by simpa using separated
    obtain ⟨c, mem, separates⟩ := separated
    have kept : c ∈ plainChars digits := by
      refine List.mem_filter.2 ⟨mem, ?_⟩
      rw [bne_iff_ne]
      rintro rfl
      exact separates (base.inner_underscore)
    rw [sound.plain.read_real ⟨c, kept, separates⟩, sound.read_real ⟨c, mem, separates⟩,
      plainChars_plainChars]

/-- A literal denotes the same number without its separators of digits. -/
theorem read_withoutSeparators {literal : Literal} (accepted : read text = .ok literal) :
    read (withoutSeparators text) = .ok literal := by
  rw [read_withoutSeparators_of_taken (.inl ⟨literal, accepted⟩), accepted]

theorem read_withoutSeparators_power :
    read "0x1_0.8p1_0" = .ok (.real (.ofNat 16896)) ∧
      withoutSeparators "0x1_0.8p1_0" = "0x10.8p10" ∧
      read "0x10.8p10" = .ok (.real (.ofNat 16896)) := by
  have accepted : read "0x1_0.8p1_0" = .ok (.real (.ofNat 16896)) := by decide +kernel
  have plain : withoutSeparators "0x1_0.8p1_0" = "0x10.8p10" := by decide +kernel
  refine ⟨accepted, plain, ?_⟩
  rw [← plain]
  exact read_withoutSeparators accepted

end Literal

end Metrology
