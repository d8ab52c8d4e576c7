import Fluxion.Forest.Order

/-!
# Typesetting

Expressions in the mathematical markup of LaTeX. Every operand stands in braces, and in
parentheses too where the printed formula would otherwise be read differently. Whether it
needs them depends on what it is, so a phrase remembers its form beside its text.
-/

namespace Fluxion

inductive Phrase.Form where
  | number (value : Float)
  | name
  | function
  | operation (op : Binary)
deriving DecidableEq

structure Phrase where
  form : Phrase.Form
  text : String

namespace Phrase

def braced (text : String) : String := "\x7b" ++ text ++ "\x7d"

def parenthesised (text : String) : String := "\\left(" ++ text ++ "\\right)"

/-- The text of an operand, in parentheses if its form calls for them. -/
def operand (p : Phrase) (delimit : Form → Bool) : String :=
  if delimit p.form then parenthesised p.text else p.text

/-- A sum needs parentheses in a sum, and so does a negative number. -/
def delimitInSum : Form → Bool
  | .operation .add | .operation .sub => true
  | .number x => x < 0
  | _ => false

/-- In a product, so does a product too. -/
def delimitInProduct : Form → Bool
  | .operation .add | .operation .sub | .operation .mul => true
  | .number x => x < 0
  | _ => false

def delimitInQuotient : Form → Bool
  | .operation .div => true
  | _ => false

def delimitInExponential : Form → Bool
  | .operation _ => true
  | _ => false

def delimitInExponent : Form → Bool
  | .operation .add | .operation .sub => true
  | _ => false

/-- The base of a power is bare only if it is a name or a single character. -/
def base (p : Phrase) : String :=
  p.operand fun
    | .name => false
    | .number _ => 1 < p.text.utf8ByteSize
    | .function | .operation _ => true

def command (name : String) (argument : Phrase) : String :=
  "\\" ++ name ++ parenthesised (braced argument.text)

def unary (op : Unary) (p : Phrase) : Phrase where
  form := .function
  text := match op with
    | .sqrt => "\\sqrt" ++ braced p.text
    | .exp => "e^" ++ braced (p.operand delimitInExponential)
    | .ln => command "ln" p
    | .sin => command "sin" p
    | .cos => command "cos" p
    | .tan => command "tan" p
    | .cot => command "cot" p
    | .sinh => command "sinh" p
    | .cosh => command "cosh" p
    | .tanh => command "tanh" p
    | .arcsin => command "arcsin" p
    | .arccos => command "arccos" p
    | .arctan => command "arctan" p
    | .arccot => command ("operatorname" ++ braced "arccot") p

def binary (op : Binary) (p q : Phrase) : Phrase where
  form := .operation op
  text := match op with
    | .add => braced (p.operand delimitInSum) ++ " + " ++ braced (q.operand delimitInSum)
    | .sub => braced (p.operand delimitInSum) ++ " - " ++ braced (q.operand delimitInSum)
    | .mul =>
      braced (p.operand delimitInProduct) ++ "\\cdot" ++ braced (q.operand delimitInProduct)
    | .div =>
      "\\dfrac" ++ braced (p.operand delimitInQuotient) ++ braced (q.operand delimitInQuotient)
    | .pow => braced p.base ++ "^" ++ braced (q.operand delimitInExponent)

/-- A variable without symbol is shown as `v` with its key for an index. -/
def variableName (r : Registry) (key : Key) : String :=
  match r.find? key with
  | some e => e.symbol.toString
  | none => "v_" ++ braced (toString key.toNat)

end Phrase

def typesetting (r : Registry) : Algebra (Except Fault) Key Phrase where
  number := fun x => .ok ⟨.number x, decimalText x⟩
  var := fun key => .ok ⟨.name, Phrase.variableName r key⟩
  unary := fun op p => .ok (.unary op p)
  binary := fun op p q => .ok (.binary op p q)

namespace Forest

/-- The markup of the expression at `i`; undefined where there is no node. -/
def markup? (f : Forest) (i : Nat) : Option String :=
  match (typesetting f.registry).run (f.program i) with
  | .ok p => some p.text
  | .error _ => none

/-- The markup of the live expression; nothing if there is none. -/
def markup (f : Forest) : String :=
  match f.root with
  | some i => (f.markup? i).getD ""
  | none => ""

end Forest

end Fluxion
