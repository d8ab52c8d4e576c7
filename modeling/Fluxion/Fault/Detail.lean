import Fluxion.Fault
import Fluxion.Text.Quoted

/-!
# Faults in detail

A second text of a fault, for diagnosis: the name of its cause with all that it carries,
numbers and texts in the form that marks them as such.
-/

namespace Fluxion

def Signal.label : Signal → String
  | divisionByZero => "DivisionByZero"
  | domainError => "DomainError"
  | overflow => "Overflow"
  | underflow => "Underflow"

namespace Detail

def record (label : String) (fields : List (String × String)) : String :=
  label ++ " \x7b " ++
    String.intercalate ", " (fields.map fun f => f.1 ++ ": " ++ f.2) ++ " \x7d"

def tuple (label : String) (content : String) : String := label ++ "(" ++ content ++ ")"

def number (x : Float) : String := Layout.structural.write x

def option (x : Option Float) : String :=
  match x with
  | some x => tuple "Some" (number x)
  | none => "None"

end Detail

open Detail

def NumericFault.detail (n : NumericFault) : String :=
  record "NumericError"
    [("op", n.op.name), ("lhs", number n.lhs), ("rhs", option n.rhs), ("signal", n.signal.label)]

namespace Fault

def label : Fault → String
  | missingNode => "NullArgument"
  | cursorOutOfBounds _ => "InvalidCursorPosition"
  | outOfMemory => "AllocationFailure"
  | alreadyAttached _ => "AlreadyAttached"
  | io _ => "IOError"
  | malformed _ _ => "Syntax"
  | numeric _ => "Numeric"
  | unknownKey _ => "VariableNotFound"
  | unbound _ => "UnboundVariable"
  | undefined _ => "UndefinedVariable"
  | arity _ => "ArityMismatch"
  | unsettled => "Unsettled"

def detail (f : Fault) : String :=
  match f with
  | missingNode | outOfMemory | unsettled => f.label
  | cursorOutOfBounds n | alreadyAttached n => tuple f.label (toString n)
  | io cause => tuple f.label (Quoted.string cause)
  | malformed offset expected =>
      record f.label [("offset", toString offset), ("expected", Quoted.string expected)]
  | numeric cause => tuple f.label cause.detail
  | unknownKey key => tuple f.label (toString key.toNat)
  | unbound symbol | undefined symbol => tuple f.label (Quoted.char symbol)
  | arity op => tuple f.label op.name

end Fault

end Fluxion
