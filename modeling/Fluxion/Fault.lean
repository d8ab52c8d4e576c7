import Fluxion.Decimal.Layout
import Fluxion.Operator
import Fluxion.Registry

/-!
# Faults

Everything that can go wrong, as causes. `Fault.message` is the one place where a cause
gets its wording.
-/

namespace Fluxion

/-- What floating-point arithmetic signals about a single operation. -/
inductive Signal where
  | divisionByZero
  | domainError
  | overflow
  | underflow
deriving DecidableEq, Inhabited

/-- A signal, with the operation that raised it and its operands. -/
structure NumericFault where
  op : Operator
  lhs : Float
  rhs : Option Float
  signal : Signal
deriving DecidableEq

inductive Fault where
  /-- An index that denotes no node, or a root where there is none. -/
  | missingNode
  | cursorOutOfBounds (position : Nat)
  | outOfMemory
  /-- The node fills a slot already or is the root. -/
  | alreadyAttached (node : Nat)
  | io (cause : String)
  /-- Unreadable text: the byte at which reading stopped and what was due there. -/
  | malformed (offset : Nat) (expected : String)
  | numeric (cause : NumericFault)
  | unknownKey (key : Key)
  /-- The variable has no value. -/
  | unbound (symbol : Char)
  /-- The symbol is not in the registry. -/
  | undefined (symbol : Char)
  | arity (op : Operator)
  /-- Simplification ran out of passes. -/
  | unsettled
deriving DecidableEq

def Signal.message : Signal → String
  | divisionByZero => "division by zero"
  | domainError => "domain error"
  | overflow => "overflow"
  | underflow => "underflow"

/-- The operation as it would be written, then its signal. -/
def NumericFault.message (n : NumericFault) : String :=
  let operation := match n.rhs with
    | some rhs => decimalText n.lhs ++ " " ++ n.op.token ++ " " ++ decimalText rhs
    | none => n.op.token ++ "(" ++ decimalText n.lhs ++ ")"
  operation ++ ": " ++ n.signal.message

def Fault.message : Fault → String
  | missingNode => "missing node"
  | cursorOutOfBounds position => "cursor position " ++ toString position ++ " is out of bounds"
  | outOfMemory => "memory allocation failed"
  | alreadyAttached node => "node " ++ toString node ++ " is already attached to the tree"
  | io cause => "io error: " ++ cause
  | malformed offset expected =>
      "syntax error at byte " ++ toString offset ++ ": expected " ++ expected
  | numeric cause => cause.message
  | unknownKey key => "no variable with hash " ++ toString key.toNat
  | unbound symbol => "variable '" ++ symbol.toString ++ "' has no value"
  | undefined symbol => "variable '" ++ symbol.toString ++ "' is not defined"
  | arity op => "wrong number of operands for '" ++ op.token ++ "'"
  | unsettled => "simplification does not settle"

end Fluxion
