/-
Module: Metrology.Proofs.RenderedTree
Layer: Proofs
Purpose: Trees rendered and read back. The rendered text of a tree is that of a shape with the
  numbers written out, and a whole number is written with its digits, which are a literal of it. So
  what the text is parsed to fits the shape, and differs from the tree in its ranges only.
Imports: Metrology.Proofs.SpanFaithfulness, Metrology.Proofs.WholeText,
  Metrology.Proofs.WrittenShape
Main exports: Expr.Renderable, Expr.shape, Expr.written_shape, Expr.bare_eq_of_fits, parse_render
-/
import Metrology.Proofs.SpanFaithfulness
import Metrology.Proofs.WholeText
import Metrology.Proofs.WrittenShape

namespace Metrology.Formula

/-! ### Shapes of trees -/

namespace Expr

/-- Every name is a name of letters and underscores, and every number is a whole number of up to as
    many bits as a double keeps, or the next one. -/
def Renderable : Expr → Prop
  | name text _ => text.toList ≠ [] ∧ ∀ c ∈ text.toList, Token.isNameChar c = true
  | number value _ => ∃ n ≤ 2 ^ 53, value = .whole n
  | neg operand _ => operand.Renderable
  | binary _ left right _ => left.Renderable ∧ right.Renderable

/-- The shape that a tree is rendered as. -/
def shape : Expr → Shape
  | name text _ => .name text
  | number value _ => .number value.value.text
  | neg operand _ => .neg operand.shape
  | binary op left right _ => .binary op left.shape right.shape

theorem renderChars_shape (e : Expr) : e.shape.renderChars = e.renderChars := by
  induction e with
  | name text span => rfl
  | number value span => rfl
  | neg operand span ih => simp [shape, Shape.renderChars, renderChars, ih]
  | binary op left right span ihLeft ihRight =>
      simp [shape, Shape.renderChars, renderChars, ihLeft, ihRight]

theorem text_whole {n : Nat} (h : n ≤ 2 ^ 53) :
    (Literal.whole n).value.text = String.ofList (decimalDigits n) :=
  Binary.text_ofNat h

theorem written_shape {e : Expr} (h : e.Renderable) : e.shape.Written := by
  induction e with
  | name text span => exact .name h.1 h.2
  | number value span =>
      obtain ⟨n, bound, rfl⟩ := h
      rw [shape, text_whole bound]
      exact Shape.written_decimalDigits (Nat.lt_of_le_of_lt bound (by decide))
  | neg operand span ih => exact .neg (ih h)
  | binary op left right span ihLeft ihRight => exact .binary (ihLeft h.1) (ihRight h.2)

/-- Two trees of the same shape differ in their ranges only. -/
theorem bare_eq_of_fits {e e' : Expr} (h : e.Renderable) (fits : e.shape.Fits e') :
    e'.bare = e.bare := by
  induction e generalizing e' with
  | name text span =>
      cases fits
      rfl
  | number value span =>
      obtain ⟨n, bound, rfl⟩ := h
      rw [shape, text_whole bound] at fits
      cases fits with
      | number reading =>
          rw [Literal.read_decimalDigits (Nat.lt_of_le_of_lt bound (by decide))] at reading
          cases reading
          rfl
  | neg operand span ih =>
      cases fits with
      | neg inner => exact congrArg (neg · _) (ih h inner)
  | binary op left right span ihLeft ihRight =>
      cases fits with
      | binary fitsLeft fitsRight =>
          have same := congr (congrArg (binary op) (ihLeft h.1 fitsLeft)) (ihRight h.2 fitsRight)
          exact congrFun same _

end Expr

/-! ### Reading back -/

/-- A rendered tree is read back, whatever its shape is. -/
theorem parse_render {e : Expr} (h : e.Renderable) :
    ∃ e', Expr.parse e.render = .ok e' ∧ e'.bare = e.bare := by
  obtain ⟨e', parsed, fits⟩ := (Expr.written_shape h).parse
  rw [Expr.renderChars_shape] at parsed
  exact ⟨e', parsed, Expr.bare_eq_of_fits h fits⟩

/-- A tree of no formula, as its ranges show: a negated negation to a power that is one itself. -/
def tower : Expr :=
  .binary .pow (.neg (.neg (.number (.whole 9007199254740992) ⟨7, 3⟩) ⟨0, 0⟩) ⟨0, 0⟩)
    (.binary .pow (.name "m_" ⟨5, 9⟩) (.neg (.number (.whole 0) ⟨0, 0⟩) ⟨0, 0⟩) ⟨0, 0⟩) ⟨0, 0⟩

theorem parse_render_tower :
    tower.Renderable ∧ tower.render = "((-(-9007199254740992)) ^ (m_ ^ (-0)))" ∧
      ∃ e, Expr.parse "((-(-9007199254740992)) ^ (m_ ^ (-0)))" = .ok e ∧ e.bare = tower.bare := by
  have letters : ∀ c ∈ "m_".toList, Token.isNameChar c = true := List.all_eq_true.1 rfl
  have renderable : tower.Renderable :=
    ⟨⟨9007199254740992, by decide, rfl⟩, ⟨by decide, letters⟩, ⟨0, by decide, rfl⟩⟩
  have rendered : tower.render = "((-(-9007199254740992)) ^ (m_ ^ (-0)))" := by decide +kernel
  obtain ⟨e, parsed, same⟩ := parse_render renderable
  exact ⟨renderable, rendered, e, rendered ▸ parsed, same⟩

end Metrology.Formula
