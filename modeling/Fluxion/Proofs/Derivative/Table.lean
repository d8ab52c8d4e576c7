import Fluxion.Proofs.Derivative.Rule
import Fluxion.Proofs.Forest.Variables
import Fluxion.Proofs.Forest.Traversal

/-!
# The table of derivatives as terms

The rules for the derivative of an operation, written out over the terms `u` and `v` of the
operands and the terms `u'` and `v'` of their derivatives. Recipes are another way to say the
same: they add in which order the parts are built.
-/

namespace Fluxion

variable {ν : Type}

namespace Term

/-- `t` to the power 2. -/
def squared (t : Term ν) : Term ν := binary .pow t (number 2)

/-- Minus one times `t`. -/
def negated (t : Term ν) : Term ν := binary .mul (number (-1)) t

/-- One and the square of `t`, under `op`. -/
def oneAndSquare (op : Binary) (t : Term ν) : Term ν := binary op (number 1) t.squared

end Term

open Term

/-- The derivative of a function. -/
def Unary.rule (op : Unary) (u u' : Term ν) : Term ν :=
  match op with
  | exp => binary .mul (unary .exp u) u'
  | sqrt => binary .div u' (binary .mul (number 2) (unary .sqrt u))
  | ln => binary .div u' u
  | sin => binary .mul (unary .cos u) u'
  | cos => negated (binary .mul (unary .sin u) u')
  | tan => binary .div u' (unary .cos u).squared
  | cot => negated (binary .div u' (unary .sin u).squared)
  | sinh => binary .mul (unary .cosh u) u'
  | cosh => binary .mul (unary .sinh u) u'
  | tanh => binary .div u' (unary .cosh u).squared
  | arcsin => binary .div u' (unary .sqrt (u.oneAndSquare .sub))
  | arccos => negated (binary .div u' (unary .sqrt (u.oneAndSquare .sub)))
  | arctan => binary .div u' (u.oneAndSquare .add)
  | arccot => negated (binary .div u' (u.oneAndSquare .add))

/-- The derivative of an operation, given on which of its operands the variable has an
influence. -/
def Binary.rule (op : Binary) (onLeft onRight : Bool) (u v u' v' : Term ν) : Term ν :=
  match op with
  | add => binary .add u' v'
  | sub => binary .sub u' v'
  | mul => binary .add (binary .mul u' v) (binary .mul u v')
  | div =>
    if onRight then
      binary .div (binary .sub (binary .mul u' v) (binary .mul u v')) v.squared
    else binary .div u' v
  | pow =>
    match onLeft, onRight with
    | true, true =>
      binary .mul (unary .exp (binary .mul v (unary .ln u)))
        (binary .add (binary .mul v' (unary .ln u)) (binary .mul v (binary .div u' u)))
    | true, false =>
      binary .mul (binary .mul v (binary .pow u (binary .sub v (number 1)))) u'
    | false, true => binary .mul (binary .mul (binary .pow u v) (unary .ln u)) v'
    | false, false => number 0

/-- The derivative by the table. -/
def Term.byTable (key : Key) : Term Key → Term Key
  | number _ => number 0
  | var k => number (if k = key then 1 else 0)
  | unary op u => op.rule u (u.byTable key)
  | binary op u v =>
    op.rule (u.dependsOn key) (v.dependsOn key) u v (u.byTable key) (v.byTable key)

/-! ### Recipes follow the table -/

theorem Unary.term_recipe (op : Unary) (u u' : Term ν) :
    op.recipe.term (fun _ => u) (fun _ => u') = op.rule u u' := by
  cases op <;> rfl

theorem Binary.term_recipe (op : Binary) (onLeft onRight : Bool) (u v u' v' : Term ν) :
    (op.recipe onLeft onRight).term (onSides u v) (onSides u' v') =
      op.rule onLeft onRight u v u' v' := by
  cases op <;> cases onLeft <;> cases onRight <;> rfl

theorem Term.derivative_eq_byTable (key : Key) (t : Term Key) :
    t.derivative key = t.byTable key := by
  induction t with
  | number x => rfl
  | var k => rfl
  | unary op u ih => rw [derivative, byTable, op.term_recipe, ih]
  | binary op u v ihu ihv => rw [derivative, byTable, op.term_recipe, ihu, ihv]

/-! ### Dependence of nodes -/

theorem Term.dependsOn_iff {key : Key} {t : Term Key} :
    t.dependsOn key = true ↔ key ∈ t.names := by
  induction t with
  | number x => simp [dependsOn, names]
  | var k =>
    rw [dependsOn, names, List.mem_singleton, beq_iff_eq]
    exact eq_comm
  | unary op t ih => exact ih
  | binary op s t ihs iht => simp [dependsOn, names, ihs, iht]

/-- A node depends on the variable as the term does that it stands for. -/
theorem Tree.Fits.dependsOn?_eq {f : Forest} {t : Tree} (h : t.Fits f.cells) (key : Key) :
    f.dependsOn? t.top key = some (t.term.dependsOn key) := by
  have lt : t.top < f.size := h.top_lt
  rw [Forest.dependsOn?, if_pos lt, Forest.preorder_eq h, Option.some.injEq, Bool.eq_iff_iff,
    Term.dependsOn_iff, h.mem_names_iff]
  simp [t.descendants_perm.mem_iff]

end Fluxion
