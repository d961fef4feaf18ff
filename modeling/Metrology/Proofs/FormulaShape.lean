/-
Module: Metrology.Proofs.FormulaShape
Layer: Proofs
Purpose: Formulas as bare trees: operators over names and over number texts that have not been read.
  A shape knows neither ranges nor values, so it is what a grammar derives; `Fits` says that a
  parsed tree is that shape up to ranges, with its number texts read as literals. The shape that a
  tree fits is determined by the tree and the number texts in order. Beside the shape of a tree
  stand its subexpressions.
Imports: Metrology.Formula.Expr
Main exports: Expr.subexpressions, Expr.subexpressions_subset, Shape, Shape.Fits,
  Shape.numberTexts, Shape.Fits.withSpan, Shape.Fits.shape_eq
-/
import Metrology.Formula.Expr

namespace Metrology.Formula

/-- The subexpressions of a tree, the tree itself included. -/
def Expr.subexpressions : Expr → List Expr
  | .name text span => [.name text span]
  | .number value span => [.number value span]
  | .neg operand span => .neg operand span :: operand.subexpressions
  | .binary op left right span =>
    .binary op left right span :: (left.subexpressions ++ right.subexpressions)

theorem Expr.self_mem_subexpressions (expr : Expr) : expr ∈ expr.subexpressions := by
  cases expr <;> simp [subexpressions]

section Subexpressions

variable {op : Operator} {expr node operand left right : Expr} {span : Span}

theorem Expr.operand_subset : operand.subexpressions ⊆ (neg operand span).subexpressions :=
  List.subset_cons_self _ _

theorem Expr.left_subset : left.subexpressions ⊆ (binary op left right span).subexpressions :=
  List.subset_cons_of_subset _ (List.subset_append_left _ _)

theorem Expr.right_subset : right.subexpressions ⊆ (binary op left right span).subexpressions :=
  List.subset_cons_of_subset _ (List.subset_append_right _ _)

/-- The subexpressions of a subexpression are subexpressions of the tree. -/
theorem Expr.subexpressions_subset (mem : node ∈ expr.subexpressions) :
    node.subexpressions ⊆ expr.subexpressions := by
  induction expr with
  | name text span =>
      obtain rfl := List.mem_singleton.1 mem
      exact List.Subset.refl _
  | number value span =>
      obtain rfl := List.mem_singleton.1 mem
      exact List.Subset.refl _
  | neg operand span ih =>
      rcases List.mem_cons.1 mem with rfl | inner
      · exact List.Subset.refl _
      · exact List.Subset.trans (ih inner) operand_subset
  | binary op left right span ihLeft ihRight =>
      rcases List.mem_cons.1 mem with rfl | inner
      · exact List.Subset.refl _
      rcases List.mem_append.1 inner with inLeft | inRight
      · exact List.Subset.trans (ihLeft inLeft) left_subset
      · exact List.Subset.trans (ihRight inRight) right_subset

end Subexpressions

/-- A formula without ranges and values. -/
inductive Shape where
  | name (text : String)
  | number (text : String)
  | neg (operand : Shape)
  | binary (op : Operator) (left right : Shape)
deriving DecidableEq, Repr, Inhabited

namespace Shape

/-- The tree is the shape up to ranges, and its numbers are what the number texts denote. -/
inductive Fits : Shape → Expr → Prop where
  | name {text : String} {span : Span} : Fits (.name text) (.name text span)
  | number {text : String} {value : Literal} {span : Span}
      (reading : Literal.read text = .ok value) : Fits (.number text) (.number value span)
  | neg {operand : Shape} {e : Expr} {span : Span} (inner : Fits operand e) :
      Fits (.neg operand) (.neg e span)
  | binary {op : Operator} {left right : Shape} {l r : Expr} {span : Span}
      (fitsLeft : Fits left l) (fitsRight : Fits right r) :
      Fits (.binary op left right) (.binary op l r span)

/-- The number texts of a shape, from left to right. -/
def numberTexts : Shape → List String
  | name _ => []
  | number text => [text]
  | neg operand => operand.numberTexts
  | binary _ left right => left.numberTexts ++ right.numberTexts

namespace Fits

variable {shape other : Shape} {e : Expr}

/-- Ranges do not matter, the outermost one included. -/
theorem withSpan (h : Fits shape e) (span : Span) : Fits shape (e.withSpan span) := by
  cases h with
  | name => exact .name
  | number reading => exact .number reading
  | neg inner => exact .neg inner
  | binary fitsLeft fitsRight => exact .binary fitsLeft fitsRight

/-- Every number text of a shape that a tree fits is a literal. -/
theorem readable (h : Fits shape e) :
    ∀ text ∈ shape.numberTexts, ∃ value, Literal.read text = .ok value := by
  induction h with
  | name => intro text mem; cases mem
  | number reading =>
      intro text mem
      obtain rfl := List.mem_singleton.1 mem
      exact ⟨_, reading⟩
  | neg _ ih => exact ih
  | binary _ _ ihLeft ihRight =>
      intro text mem
      rcases List.mem_append.1 mem with inLeft | inRight
      · exact ihLeft text inLeft
      · exact ihRight text inRight

/-- Shapes of one tree have equally many number texts. -/
theorem length_numberTexts_eq (h : Fits shape e) (h' : Fits other e) :
    shape.numberTexts.length = other.numberTexts.length := by
  induction h generalizing other with
  | name => cases h'; rfl
  | number _ => cases h'; rfl
  | neg _ ih =>
      cases h' with
      | neg inner => simp only [numberTexts, ih inner]
  | binary _ _ ihLeft ihRight =>
      cases h' with
      | binary fitsLeft fitsRight =>
          simp only [numberTexts, List.length_append, ihLeft fitsLeft, ihRight fitsRight]

/-- A tree and the number texts in order leave no choice of a shape. -/
theorem shape_eq (h : Fits shape e) (h' : Fits other e)
    (texts : shape.numberTexts = other.numberTexts) : shape = other := by
  induction h generalizing other with
  | name => cases h'; rfl
  | number _ =>
      cases h' with
      | number _ => exact congrArg Shape.number (List.singleton_inj.1 texts)
  | neg _ ih =>
      cases h' with
      | neg inner => exact congrArg Shape.neg (ih inner texts)
  | binary fitsLeft _ ihLeft ihRight =>
      cases h' with
      | binary fitsLeft' fitsRight' =>
          obtain ⟨textsLeft, textsRight⟩ :=
            List.append_inj texts (fitsLeft.length_numberTexts_eq fitsLeft')
          rw [ihLeft fitsLeft' textsLeft, ihRight fitsRight' textsRight]

end Fits

end Shape

end Metrology.Formula
