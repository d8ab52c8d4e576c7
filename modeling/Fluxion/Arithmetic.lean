import Fluxion.Fault

/-!
# Arithmetic with signals

Each operator is computed in binary64 and its result is judged: an operation on ordinary
operands whose result is not a number, is infinite, is subnormal or vanishes although it
should not have, is refused with the signal it raised.

The four operations, the square root and the order of binary64 are fixed. The elementary
functions are those of the platform, of whose last digits nothing is known: what is said
about values holds of any of them.
-/

namespace Fluxion

/-- The elementary functions, computed in binary64. -/
class Elementary where
  exp : Float → Float
  ln : Float → Float
  sin : Float → Float
  cos : Float → Float
  tan : Float → Float
  sinh : Float → Float
  cosh : Float → Float
  tanh : Float → Float
  arcsin : Float → Float
  arccos : Float → Float
  arctan : Float → Float
  pow : Float → Float → Float

/-- The elementary functions of the platform. -/
instance Elementary.platform : Elementary where
  exp := Float.exp
  ln := Float.log
  sin := Float.sin
  cos := Float.cos
  tan := Float.tan
  sinh := Float.sinh
  cosh := Float.cosh
  tanh := Float.tanh
  arcsin := Float.asin
  arccos := Float.acos
  arctan := Float.atan
  pow := Float.pow

variable [Elementary]

def halfPi : Float := Float.ofBits 0x3FF921FB54442D18

/-- Nonzero, and below the least normal number in magnitude. -/
def isSubnormal (x : Float) : Bool :=
  let magnitude := x.toBits &&& 0x7FFFFFFFFFFFFFFF
  0 < magnitude && magnitude < 0x0010000000000000

def Unary.compute (op : Unary) (x : Float) : Float :=
  match op with
  | exp => Elementary.exp x
  | sqrt => x.sqrt
  | ln => Elementary.ln x
  | sin => Elementary.sin x
  | cos => Elementary.cos x
  | tan => Elementary.tan x
  | cot => Elementary.cos x / Elementary.sin x
  | sinh => Elementary.sinh x
  | cosh => Elementary.cosh x
  | tanh => Elementary.tanh x
  | arcsin => Elementary.arcsin x
  | arccos => Elementary.arccos x
  | arctan => Elementary.arctan x
  | arccot => halfPi - Elementary.arctan x

def Binary.compute (op : Binary) (x y : Float) : Float :=
  match op with
  | add => x + y
  | sub => x - y
  | mul => x * y
  | div => x / y
  | pow => Elementary.pow x y

/-- Whether the exact result at `x` is an infinity. -/
def Unary.pole (op : Unary) (x : Float) : Bool :=
  match op with
  | ln => x == 0
  | cot => Elementary.sin x == 0
  | _ => false

def Binary.pole (op : Binary) (x y : Float) : Bool :=
  match op with
  | div => y == 0
  | pow => x == 0 && y < 0
  | _ => false

/-- Whether a result of zero means that the exact result was too small. -/
def Unary.vanishes (op : Unary) : Bool := op = exp

def Binary.vanishes (op : Binary) (x y : Float) : Bool :=
  match op with
  | mul => x != 0 && y != 0
  | div | pow => x != 0
  | _ => false

/-- The signal raised by an operation on `operands`. Operands that are infinite or no
numbers excuse a result of their kind. -/
def signal? (operands : List Float) (pole vanishes : Bool) (result : Float) : Option Signal :=
  if result.isNaN then
    if operands.any Float.isNaN then none else some .domainError
  else if result.isInf then
    if !operands.all Float.isFinite then none
    else if pole then some .divisionByZero
    else some .overflow
  else if isSubnormal result then some .underflow
  else if result == 0 && operands.all Float.isFinite && vanishes then some .underflow
  else none

def Unary.apply (op : Unary) (x : Float) : Except NumericFault Float :=
  let result := op.compute x
  match signal? [x] (op.pole x) op.vanishes result with
  | none => .ok result
  | some signal => .error ⟨.unary op, x, none, signal⟩

def Binary.apply (op : Binary) (x y : Float) : Except NumericFault Float :=
  let result := op.compute x y
  match signal? [x, y] (op.pole x y) (op.vanishes x y) result with
  | none => .ok result
  | some signal => .error ⟨.binary op, x, some y, signal⟩

namespace Operator

/-- The unjudged result; a function ignores the second operand. -/
def compute (op : Operator) (x y : Float) : Float :=
  match op with
  | unary op => op.compute x
  | binary op => op.compute x y

def apply (op : Operator) (x : Float) (y? : Option Float) : Except Fault Float :=
  match op, y? with
  | unary op, _ => (op.apply x).mapError .numeric
  | binary op, some y => (op.apply x y).mapError .numeric
  | binary op, none => .error (.arity (.binary op))

end Operator

end Fluxion
