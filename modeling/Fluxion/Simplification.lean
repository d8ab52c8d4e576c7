import Fluxion.Arithmetic
import Fluxion.Forest.Order
import Fluxion.Journal.Report

/-!
# Simplification

A node whose operands are all numbers is replaced by its value, unless computing it
raises a signal: then it stays and the failure is reported. Any other node that matches
an identity is replaced by one of its operands or by a number. A number within the
tolerance of 0 or 1 counts as 0 or 1 there. Passes over the live expression, operands
before their operators, are repeated until one of them replaces nothing.
-/

namespace Fluxion

def tolerance : Float := 1e-9

/-- Whether an operand is a number close to `target`. -/
def near (target : Float) (operand? : Option Float) : Bool :=
  operand?.any fun x => (x - target).abs < tolerance

/-- What an identity leaves of an operation. -/
inductive Remainder where
  | constant (value : Float)
  | left
  | right
deriving DecidableEq

/-- The first identity that applies to an operation, of whose operands only those that
are numbers are given. -/
def Binary.identity? (op : Binary) (x? y? : Option Float) : Option Remainder :=
  match op with
  | mul =>
    if near 0 x? then some (.constant 0)
    else if near 1 x? then some .right
    else if near 0 y? then some (.constant 0)
    else if near 1 y? then some .left
    else none
  | add =>
    if near 0 x? then some .right
    else if near 0 y? then some .left
    else none
  | sub => if near 0 y? then some .left else none
  | div => if near 1 y? then some .left else none
  | pow =>
    if near 0 x? then some (.constant 0)
    else if near 1 x? then some (.constant 1)
    else if near 0 y? then some (.constant 1)
    else if near 1 y? then some .left
    else none

/-- What takes the place of a node. -/
inductive Reduct where
  | node (index : Nat)
  | number (value : Float)
deriving DecidableEq

/-- What is left of an operation on the nodes `a` and `b`. -/
def Reduct.ofRemainder (a b : Nat) : Remainder → Reduct
  | .constant v => number v
  | .left => node a
  | .right => node b

namespace Forest

variable [Elementary]

def number? (f : Forest) (i : Nat) : Option Float :=
  match f.cells[i]? with
  | some (.number x) => some x
  | _ => none

/-- What the node reduces to, if it does; or the signal that folding it raises. -/
def reduct? (f : Forest) (i : Nat) : Except NumericFault (Option Reduct) :=
  match f.cells[i]? with
  | some (.unary op a) =>
    match f.number? a with
    | some x => (op.apply x).map fun v => some (.number v)
    | none => .ok none
  | some (.binary op a b) =>
    match f.number? a, f.number? b with
    | some x, some y => (op.apply x y).map fun v => some (.number v)
    | x?, y? =>
      .ok ((op.identity? x? y?).map (.ofRemainder a b))
  | _ => .ok none

/-- More passes than simplification can take and still settle. A pass that changes the live
expression makes it smaller; a pass that does not only moves stale slots further down. -/
def passLimit (f : Forest) : Nat :=
  (f.liveSize + f.size + 1) * (f.liveSize + f.size + 1)

end Forest

namespace Watch

variable [Elementary] {σ : Type}

/-- Reduces one node, and adds one to `count` if it was replaced. -/
def reduceNode (sink : Sink σ) (count i : Nat) : Watch σ Nat := do
  match ← look (·.reduct? i) with
  | .error cause =>
    report sink (.foldingSkipped i (.numeric cause))
    return count
  | .ok none => return count
  | .ok (some (.node j)) =>
    act (.replace i j)
    return count + 1
  | .ok (some (.number v)) =>
    act do Edit.replace i (← Edit.number v)
    return count + 1

/-- One pass; the number of nodes replaced. -/
def simplifyPass (sink : Sink σ) : Watch σ Nat := do
  let root ← act .rootIndex
  (← look (·.descendantsFirst root)).foldlM (reduceNode sink) 0

/-- Passes until nothing is replaced, added up onto `total`. -/
def simplifyPasses (sink : Sink σ) : Nat → Nat → Watch σ Nat
  | 0, _ => throw .unsettled
  | passes + 1, total => do
    let count ← simplifyPass sink
    if count = 0 then return total
    else simplifyPasses sink passes (total + count)

/-- Simplifies the live expression; the number of nodes replaced. -/
def simplify (sink : Sink σ) : Watch σ Nat := do
  let total ← simplifyPasses sink (← look (·.passLimit)) 0
  if total > 0 then report sink (.simplified (← act .rootIndex))
  return total

end Watch

end Fluxion
