import Fluxion.Forest.Basic
import Fluxion.Postfix

/-!
# Orders of traversal

The nodes reachable from a node, in the three orders that the operations need, and the
term that a node stands for. A node that is reachable on several paths is listed once for
each. The depth of a traversal is bounded by the number of cells, which no path without
a repetition exceeds.
-/

namespace Fluxion

def Cell.step : Cell → Step Key
  | number x => .number x
  | var key => .var key
  | unary op _ => .unary op
  | binary op _ _ => .binary op

namespace Forest

/-- Left operand, right operand, node; followed by `rest`. -/
def postorderOnto (cells : Array Cell) : Nat → Nat → List Nat → List Nat
  | 0, _, rest => rest
  | depth + 1, i, rest =>
    match cells[i]? with
    | none => rest
    | some (.unary _ a) => postorderOnto cells depth a (i :: rest)
    | some (.binary _ a b) =>
      postorderOnto cells depth a (postorderOnto cells depth b (i :: rest))
    | some _ => i :: rest

/-- Right operand, left operand, node; followed by `rest`. This is the reverse of the order
node, left operand, right operand. -/
def descendantsOnto (cells : Array Cell) : Nat → Nat → List Nat → List Nat
  | 0, _, rest => rest
  | depth + 1, i, rest =>
    match cells[i]? with
    | none => rest
    | some (.unary _ a) => descendantsOnto cells depth a (i :: rest)
    | some (.binary _ a b) =>
      descendantsOnto cells depth b (descendantsOnto cells depth a (i :: rest))
    | some _ => i :: rest

def postorder (f : Forest) (i : Nat) : List Nat := postorderOnto f.cells f.size i []

/-- Every node comes after all nodes below it, and the later operand comes first. -/
def descendantsFirst (f : Forest) (i : Nat) : List Nat := descendantsOnto f.cells f.size i []

def preorder (f : Forest) (i : Nat) : List Nat := (f.descendantsFirst i).reverse

/-- The postfix program of the node. -/
def program (f : Forest) (i : Nat) : List (Step Key) :=
  (f.postorder i).filterMap fun j => f.cells[j]?.map Cell.step

/-- The number of live nodes. -/
def liveSize (f : Forest) : Nat :=
  match f.root with
  | some i => (f.descendantsFirst i).length
  | none => 0

/-- Whether a variable occurs below `i`; undefined where there is no node. -/
def holdsVariable? (f : Forest) (i : Nat) : Option Bool :=
  if i < f.size then
    some ((f.preorder i).any fun j => match f.cells[j]? with
      | some (.var _) => true
      | _ => false)
  else none

/-- Whether the variable with the given key occurs below `i`. -/
def dependsOn? (f : Forest) (i : Nat) (key : Key) : Option Bool :=
  if i < f.size then some ((f.preorder i).any fun j => f.cells[j]? == some (.var key))
  else none

/-- The term that is read off along at most `depth` slots. -/
def termWithin? (cells : Array Cell) : Nat → Nat → Option (Term Key)
  | 0, _ => none
  | depth + 1, i =>
    match cells[i]? with
    | none => none
    | some (.number x) => some (.number x)
    | some (.var key) => some (.var key)
    | some (.unary op a) => (termWithin? cells depth a).map (.unary op)
    | some (.binary op a b) => do
      let s ← termWithin? cells depth a
      let t ← termWithin? cells depth b
      return .binary op s t

/-- The term that the node stands for, if no slot below it is empty or leads back up. -/
def term? (f : Forest) (i : Nat) : Option (Term Key) := termWithin? f.cells f.size i

end Forest

end Fluxion
