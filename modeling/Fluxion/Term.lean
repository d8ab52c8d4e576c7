import Fluxion.Operator

/-!
# Terms

An expression as a tree, over any type of variable names: symbols where an expression is
read or written, keys where it is held in a forest.
-/

namespace Fluxion

inductive Term (ν : Type) where
  | number (value : Float)
  | var (name : ν)
  | unary (op : Unary) (operand : Term ν)
  | binary (op : Binary) (lhs rhs : Term ν)
deriving DecidableEq

namespace Term

variable {ν μ : Type}

instance : Inhabited (Term ν) := ⟨number 0⟩

def map (f : ν → μ) : Term ν → Term μ
  | number x => number x
  | var n => var (f n)
  | unary op t => unary op (t.map f)
  | binary op s t => binary op (s.map f) (t.map f)

/-- The number of nodes. -/
def size : Term ν → Nat
  | number _ | var _ => 1
  | unary _ t => t.size + 1
  | binary _ s t => s.size + t.size + 1

/-- The names of the variables from left to right, one for each occurrence. -/
def names : Term ν → List ν
  | number _ => []
  | var n => [n]
  | unary _ t => t.names
  | binary _ s t => s.names ++ t.names

end Term

end Fluxion
