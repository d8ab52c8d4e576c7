import Fluxion.Operator

/-!
# The table of derivatives

The derivative of an operation is a recipe over its operands and their derivatives. The
recipe also fixes in which order its parts are built: the left part of an operation first,
unless it says otherwise.
-/

namespace Fluxion

/-- One of the operands of an operation; a function has only the left one. -/
inductive Side where
  | left
  | right
deriving DecidableEq

def onSides {α : Type} (a b : α) : Side → α
  | .left => a
  | .right => b

inductive Recipe where
  | number (value : Float)
  /-- The operand itself. -/
  | operand (side : Side)
  /-- The derivative of the operand. -/
  | slope (side : Side)
  | unary (op : Unary) (r : Recipe)
  | binary (op : Binary) (r s : Recipe)
  /-- As `binary`, with the right part built first. -/
  | rightFirst (op : Binary) (r s : Recipe)
deriving DecidableEq

namespace Recipe

def squared (r : Recipe) : Recipe := binary .pow r (number 2)

/-- `r` times minus one. -/
def negated (r : Recipe) : Recipe := rightFirst .mul (number (-1)) r

/-- `u'v + uv'`, or the difference of the two products. -/
def crossProducts (op : Binary) : Recipe :=
  .binary op (.rightFirst .mul (.slope .left) (.operand .right))
    (.binary .mul (.operand .left) (.slope .right))

end Recipe

def Unary.recipe (op : Unary) : Recipe :=
  let u : Recipe := .operand .left
  let u' : Recipe := .slope .left
  match op with
  | exp => .binary .mul (.unary .exp u) u'
  | sqrt => .binary .div u' (.binary .mul (.number 2) (.unary .sqrt u))
  | ln => .binary .div u' u
  | sin => .binary .mul (.unary .cos u) u'
  | cos => .negated (.binary .mul (.unary .sin u) u')
  | tan => .binary .div u' (.squared (.unary .cos u))
  | cot => .negated (.binary .div u' (.squared (.unary .sin u)))
  | sinh => .binary .mul (.unary .cosh u) u'
  | cosh => .binary .mul (.unary .sinh u) u'
  | tanh => .binary .div u' (.squared (.unary .cosh u))
  | arcsin => .binary .div u' (.unary .sqrt (.binary .sub (.number 1) (.squared u)))
  | arccos => .negated (.binary .div u' (.unary .sqrt (.binary .sub (.number 1) (.squared u))))
  | arctan => .binary .div u' (.binary .add (.number 1) (.squared u))
  | arccot => .negated (.binary .div u' (.binary .add (.number 1) (.squared u)))

namespace Binary

/-- The derivatives of which operands the recipe uses, given on which of them the operation
depends. -/
def uses (op : Binary) (onLeft onRight : Bool) : Side → Bool
  | .left => if op = pow then onLeft else true
  | .right => if op = div ∨ op = pow then onRight else true

/-- A quotient by a constant and a power with a constant part have recipes of their own. -/
def recipe (op : Binary) (onLeft onRight : Bool) : Recipe :=
  let u : Recipe := .operand .left
  let v : Recipe := .operand .right
  let u' : Recipe := .slope .left
  let v' : Recipe := .slope .right
  match op with
  | add => .binary .add u' v'
  | sub => .binary .sub u' v'
  | mul => .crossProducts .add
  | div =>
    if onRight then .binary .div (.crossProducts .sub) (.squared v)
    else .rightFirst .div u' v
  | pow =>
    match onLeft, onRight with
    | true, true =>
      .binary .mul (.unary .exp (.binary .mul v (.unary .ln u)))
        (.binary .add (.rightFirst .mul v' (.unary .ln u))
          (.rightFirst .mul v (.rightFirst .div u' u)))
    | true, false =>
      .binary .mul (.binary .mul v (.rightFirst .pow u (.binary .sub v (.number 1)))) u'
    | false, true => .binary .mul (.binary .mul (.binary .pow u v) (.unary .ln u)) v'
    | false, false => .number 0

end Binary

end Fluxion
