import Fluxion.Derivative.Recipe
import Fluxion.Forest.Copy
import Fluxion.Journal.Report

/-!
# Differentiation

The derivative of an expression is built beside it, from fresh cells and fresh copies of
operands, and then takes its place. The nodes are visited operands first. A node is
differentiated only if the recipe of the node above it uses its derivative.
-/

namespace Fluxion

namespace Forest

def flag (flags : Array Bool) (i : Nat) : Bool := flags[i]?.getD false

/-- Flags whether the node `i` depends on the variable, given the flags of its operands. -/
def markDepends (f : Forest) (key : Key) (flags : Array Bool) (i : Nat) : Array Bool :=
  flags.setIfInBounds i (match f.cells[i]? with
    | some (.var k) => k == key
    | some (.unary _ a) => flag flags a
    | some (.binary _ a b) => flag flags a || flag flags b
    | _ => false)

/-- For every node of `order`, operands first, whether it depends on the variable. -/
def dependence (f : Forest) (key : Key) (order : List Nat) : Array Bool :=
  order.foldl (f.markDepends key) (Array.replicate f.size false)

/-- Flags the operands of the node `i` whose derivatives its own derivative uses. -/
def markDemand (f : Forest) (depends : Array Bool) (flags : Array Bool) (i : Nat) :
    Array Bool :=
  if flag flags i then
    match f.cells[i]? with
    | some (.unary _ a) => flags.setIfInBounds a true
    | some (.binary op a b) =>
      let uses := op.uses (flag depends a) (flag depends b)
      (flags.setIfInBounds a (uses .left)).setIfInBounds b (uses .right)
    | _ => flags
  else flags

/-- For every node of `order`, operators first, whether its derivative is used for that of
the node `top`. -/
def demand (f : Forest) (top : Nat) (depends : Array Bool) (order : List Nat) :
    Array Bool :=
  order.foldl (f.markDemand depends) ((Array.replicate f.size false).setIfInBounds top true)

/-- The key of a symbol that must be in the registry. -/
def definedKey (f : Forest) (symbol : Char) : Except Fault Key :=
  match f.registry.findSymbol? symbol with
  | some e => .ok e.key
  | none => .error (.undefined symbol)

end Forest

namespace Edit

/-- The derivative that was built for the node `i`. -/
def slopeOf (slopes : Array (Option Nat)) (i : Nat) : Edit Nat :=
  match slopes[i]?.join with
  | some d => pure d
  | none => throw .missingNode

/-- Follows a recipe, given the operands and how to find their derivatives. -/
def follow (operand : Side → Nat) (slope : Side → Edit Nat) : Recipe → Edit Nat
  | .number x => number x
  | .operand side => copy (operand side)
  | .slope side => slope side
  | .unary op r => do applyUnary op (← follow operand slope r)
  | .binary op r s => do
    let a ← follow operand slope r
    let b ← follow operand slope s
    applyBinary op a b
  | .rightFirst op r s => do
    let b ← follow operand slope s
    let a ← follow operand slope r
    applyBinary op a b

/-- The key of a symbol that must be in the registry. -/
def definedKey (symbol : Char) : Edit Key := fun f =>
  match f.definedKey symbol with
  | .ok key => .ok key f
  | .error fault => .error fault f

end Edit

namespace Watch

variable {σ : Type}

/-- Builds the derivative of the node `i` from those of its operands. -/
def deriveNode (sink : Sink σ) (key : Key) (depends : Array Bool)
    (slopes : Array (Option Nat)) (i : Nat) : Watch σ Nat := do
  match ← look (·.cells[i]?) with
  | none => throw .missingNode
  | some (.number _) => act (.number 0)
  | some (.var k) => act (.number (if k = key then 1 else 0))
  | some (.unary op a) =>
    let a' ← act (.slopeOf slopes a)
    let d ← act (.follow (fun _ => a) (fun _ => pure a') op.recipe)
    report sink (.stepDerived d i)
    return d
  | some (.binary op a b) =>
    let operand := onSides a b
    let recipe := op.recipe (Forest.flag depends a) (Forest.flag depends b)
    let d ← act (.follow operand (fun side => .slopeOf slopes (operand side)) recipe)
    report sink (.stepDerived d i)
    return d

/-- Adds the derivative of the node `i` to `slopes` if it is demanded. -/
def deriveDemanded (sink : Sink σ) (key : Key) (depends demanded : Array Bool)
    (slopes : Array (Option Nat)) (i : Nat) : Watch σ (Array (Option Nat)) := do
  if Forest.flag demanded i then
    let d ← deriveNode sink key depends slopes i
    return slopes.setIfInBounds i (some d)
  else return slopes

/-- Builds the derivative of the expression at `i`, which is left as it is. -/
def derive (sink : Sink σ) (i : Nat) (key : Key) : Watch σ Nat := do
  let order ← look (·.postorder i)
  let depends ← look (·.dependence key order)
  let demanded ← look (·.demand i depends order.reverse)
  let none := Array.replicate (← look (·.size)) none
  let slopes ← order.foldlM (deriveDemanded sink key depends demanded) none
  act (.slopeOf slopes i)

/-- Puts the derivative of the expression at `i` in its place. -/
def differentiate (sink : Sink σ) (i : Nat) (key : Key) : Watch σ Nat := do
  act (.require (·.absent? i))
  let d ← derive sink i key
  act (.replace i d)
  report sink (.derived d i)
  return d

/-- Differentiates the live expression. -/
def differentiateRoot (sink : Sink σ) (symbol : Char) : Watch σ Unit := do
  let key ← act (.definedKey symbol)
  discard (differentiate sink (← act .rootIndex) key)

end Watch

end Fluxion
