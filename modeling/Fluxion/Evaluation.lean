import Fluxion.Arithmetic
import Fluxion.Forest.Order

/-!
# Evaluation

The value of an expression under the values of the registry. Operands are evaluated from
left to right and the first fault ends the evaluation.
-/

namespace Fluxion

def Registry.value (r : Registry) (key : Key) : Except Fault Float :=
  match r.find? key with
  | none => .error (.unknownKey key)
  | some e =>
    match e.value with
    | none => .error (.unbound e.symbol)
    | some x => .ok x

variable [Elementary]

def evaluation (r : Registry) : Algebra (Except Fault) Key Float where
  number := .ok
  var := r.value
  unary := fun op x => (op.apply x).mapError .numeric
  binary := fun op x y => (op.apply x y).mapError .numeric

namespace Forest

def evaluate (f : Forest) (i : Nat) : Except Fault Float :=
  match f.absent? i with
  | some fault => .error fault
  | none => (evaluation f.registry).run (f.program i)

/-- The value of the live expression. -/
def value (f : Forest) : Except Fault Float :=
  match f.root with
  | some i => f.evaluate i
  | none => .error .missingNode

end Forest

end Fluxion
