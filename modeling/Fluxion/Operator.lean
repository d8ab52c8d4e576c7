/-!
# Operators

The operators of expressions: five that join two operands and fourteen functions of
one. The number of operands is part of the type, so a node of an expression cannot
carry an operator of the wrong kind. `Operator` is the sum of the two families, used
where either may occur: in requests, in messages and in the catalog.

Every operator has a written token, read by both notations, and a proper name, shown
where the structure of an expression is displayed.
-/

namespace Fluxion

inductive Binary where
  | add | sub | mul | div | pow
deriving DecidableEq, Inhabited

inductive Unary where
  | exp | sqrt | ln
  | sin | cos | tan | cot
  | sinh | cosh | tanh
  | arcsin | arccos | arctan | arccot
deriving DecidableEq, Inhabited

inductive Operator where
  | binary (op : Binary)
  | unary (op : Unary)
deriving DecidableEq, Inhabited

namespace Binary

def all : List Binary := [add, sub, mul, div, pow]

def token : Binary → String
  | add => "+"
  | sub => "-"
  | mul => "*"
  | div => "/"
  | pow => "^"

def name : Binary → String
  | add => "Add"
  | sub => "Sub"
  | mul => "Mul"
  | div => "Div"
  | pow => "Pow"

/-- Higher binds tighter. -/
def precedence : Binary → Nat
  | add | sub => 1
  | mul | div => 2
  | pow => 3

end Binary

namespace Unary

def all : List Unary :=
  [exp, sqrt, ln, sin, cos, tan, cot, sinh, cosh, tanh, arcsin, arccos, arctan, arccot]

def token : Unary → String
  | exp => "exp"
  | sqrt => "sqrt"
  | ln => "ln"
  | sin => "sin"
  | cos => "cos"
  | tan => "tan"
  | cot => "ctg"
  | sinh => "sh"
  | cosh => "ch"
  | tanh => "th"
  | arcsin => "arcsin"
  | arccos => "arccos"
  | arctan => "arctg"
  | arccot => "arcctg"

def name : Unary → String
  | exp => "Exp"
  | sqrt => "Sqrt"
  | ln => "Log"
  | sin => "Sin"
  | cos => "Cos"
  | tan => "Tan"
  | cot => "Ctg"
  | sinh => "Sh"
  | cosh => "Ch"
  | tanh => "Th"
  | arcsin => "Asin"
  | arccos => "Acos"
  | arctan => "Atan"
  | arccot => "Actg"

/-- The function written with the given token. No operator of two operands is a function. -/
def ofToken? (token : String) : Option Unary :=
  all.find? fun op => op.token == token

end Unary

namespace Operator

/-- The catalog: its order is the numbering of the operators. -/
def all : List Operator := Binary.all.map binary ++ Unary.all.map unary

def index (op : Operator) : Nat := all.idxOf op

def token : Operator → String
  | binary op => op.token
  | unary op => op.token

def name : Operator → String
  | binary op => op.name
  | unary op => op.name

def arity : Operator → Nat
  | binary _ => 2
  | unary _ => 1

/-- Function application binds tighter than every operator between two operands. -/
def precedence : Operator → Nat
  | binary op => op.precedence
  | unary _ => 4

def isUnary : Operator → Bool
  | binary _ => false
  | unary _ => true

def ofToken? (token : String) : Option Operator :=
  all.find? fun op => op.token == token

def ofName? (name : String) : Option Operator :=
  all.find? fun op => op.name == name

end Operator

end Fluxion
