/-
Module: Metrology.Proofs.Outcome
Layer: Proofs
Purpose: Results that may be errors, taken apart. A composed computation has a given outcome exactly
  when its parts have outcomes that make it up; proofs about readers and evaluators peel their
  computations with these statements instead of unfolding them.
Imports: none (Mathlib-free)
Main exports: decidableEqOutcome, bind_eq_ok_iff, bind_eq_error_iff, map_eq_ok_iff,
  mapError_eq_ok_iff, mapError_eq_error_iff, mapError_bind_congr, mapError_map_congr,
  property_of_map_val, foldlM_preserves, foldlM_eq_error_iff
-/

namespace Metrology

variable {ε φ α β : Type}

instance decidableEqOutcome [DecidableEq ε] [DecidableEq α] : DecidableEq (Except ε α)
  | .ok a, .ok b => decidable_of_iff (a = b) (by simp)
  | .error e, .error f => decidable_of_iff (e = f) (by simp)
  | .ok _, .error _ => isFalse (by simp)
  | .error _, .ok _ => isFalse (by simp)

@[simp] theorem mapError_ok (f : ε → φ) (a : α) :
    (.ok a : Except ε α).mapError f = .ok a := rfl

@[simp] theorem mapError_error (f : ε → φ) (e : ε) :
    (.error e : Except ε α).mapError f = .error (f e) := rfl

theorem bind_eq_ok_iff {result : Except ε α} {next : α → Except ε β} {b : β} :
    result.bind next = .ok b ↔ ∃ a, result = .ok a ∧ next a = .ok b := by
  cases result <;> simp [Except.bind]

theorem bind_eq_error_iff {result : Except ε α} {next : α → Except ε β} {e : ε} :
    result.bind next = .error e ↔ result = .error e ∨ ∃ a, result = .ok a ∧ next a = .error e := by
  cases result <;> simp [Except.bind]

theorem map_eq_ok_iff {result : Except ε α} {f : α → β} {b : β} :
    result.map f = .ok b ↔ ∃ a, result = .ok a ∧ f a = b := by
  cases result <;> simp [Except.map]

theorem map_eq_error_iff {result : Except ε α} {f : α → β} {e : ε} :
    result.map f = .error e ↔ result = .error e := by
  cases result <;> simp [Except.map]

theorem mapError_eq_ok_iff {result : Except ε α} {f : ε → φ} {a : α} :
    result.mapError f = .ok a ↔ result = .ok a := by
  cases result <;> simp

theorem mapError_eq_error_iff {result : Except ε α} {f : ε → φ} {e : φ} :
    result.mapError f = .error e ↔ ∃ cause, result = .error cause ∧ f cause = e := by
  cases result <;> simp

/-- Computations that agree up to their errors, whose continuations do too. -/
theorem mapError_bind_congr {x y : Except ε α} {f g : α → Except ε β} {view : ε → φ}
    (h : x.mapError view = y.mapError view) (h' : ∀ a, (f a).mapError view = (g a).mapError view) :
    (x.bind f).mapError view = (y.bind g).mapError view := by
  cases x with
  | ok a =>
      obtain rfl : y = .ok a := mapError_eq_ok_iff.1 h.symm
      exact h' a
  | error e =>
      obtain ⟨cause, rfl, same⟩ := mapError_eq_error_iff.1 h.symm
      exact congrArg Except.error same.symm

theorem mapError_map_congr {x y : Except ε α} {view : ε → φ}
    (h : x.mapError view = y.mapError view) (f : α → β) :
    (x.map f).mapError view = (y.map f).mapError view := by
  cases x with
  | ok a =>
      obtain rfl : y = .ok a := mapError_eq_ok_iff.1 h.symm
      rfl
  | error e =>
      obtain ⟨cause, rfl, same⟩ := mapError_eq_error_iff.1 h.symm
      exact congrArg Except.error same.symm

/-- What a subtype promises holds of a result without its proof. -/
theorem property_of_map_val {p : α → Prop} {result : Except ε { a // p a }} {a : α}
    (h : result.map Subtype.val = .ok a) : p a := by
  obtain ⟨r, _, rfl⟩ := map_eq_ok_iff.1 h
  exact r.property

/-- What every step keeps is kept by a run of steps that comes to its end. -/
theorem foldlM_preserves {σ : Type} {p : σ → Prop} {f : σ → α → Except ε σ}
    (step : ∀ s a t, p s → f s a = .ok t → p t) {xs : List α} {s t : σ} (start : p s)
    (h : xs.foldlM f s = .ok t) : p t := by
  induction xs generalizing s with
  | nil =>
      cases h
      exact start
  | cons a xs ih =>
      rw [List.foldlM_cons] at h
      obtain ⟨next, stepped, rest⟩ := bind_eq_ok_iff.1 h
      exact ih (step s a next start stepped) rest

/-- A run of steps fails exactly when it gets to a step that does. -/
theorem foldlM_eq_error_iff {σ : Type} {f : σ → α → Except ε σ} {xs : List α} {s : σ} {e : ε} :
    xs.foldlM f s = .error e ↔ ∃ before a after t, xs = before ++ a :: after ∧
      before.foldlM f s = .ok t ∧ f t a = .error e := by
  induction xs generalizing s with
  | nil =>
      refine iff_of_false nofun ?_
      rintro ⟨before, a, after, t, split, -⟩
      simp at split
  | cons x xs ih =>
      rw [List.foldlM_cons]
      constructor
      · intro failed
        rcases bind_eq_error_iff.1 failed with here | ⟨next, stepped, later⟩
        · exact ⟨[], x, xs, s, rfl, rfl, here⟩
        · obtain ⟨before, a, after, t, rfl, reached, fails⟩ := ih.1 later
          refine ⟨x :: before, a, after, t, rfl, ?_, fails⟩
          rw [List.foldlM_cons]
          exact bind_eq_ok_iff.2 ⟨next, stepped, reached⟩
      · rintro ⟨before, a, after, t, split, reached, fails⟩
        cases before with
        | nil =>
            obtain ⟨rfl, rfl⟩ := List.cons.inj split
            cases reached
            exact bind_eq_error_iff.2 (.inl fails)
        | cons y before =>
            obtain ⟨rfl, rfl⟩ := List.cons.inj split
            rw [List.foldlM_cons] at reached
            obtain ⟨next, stepped, reached⟩ := bind_eq_ok_iff.1 reached
            exact bind_eq_error_iff.2
              (.inr ⟨next, stepped, ih.2 ⟨before, a, after, t, rfl, reached, fails⟩⟩)

end Metrology
