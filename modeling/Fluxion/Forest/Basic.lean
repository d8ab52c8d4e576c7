import Fluxion.Fault

/-!
# Forests

A forest holds the nodes of expressions as cells of an arena. An operator cell names its
operands by their indices, its slots, and for every cell the forest records the cell
whose slot it fills. One cell may be the root: what is reachable from it is the live
expression. The other cells are detached expressions and retired nodes, which stay
readable until the forest is compacted.

A cell may enter a slot only while it is detached: it fills no slot and is not the root.
-/

namespace Fluxion

inductive Cell where
  | number (value : Float)
  | var (key : Key)
  | unary (op : Unary) (operand : Nat)
  | binary (op : Binary) (lhs rhs : Nat)
deriving DecidableEq

namespace Cell

/-- Puts `new` into the first slot that holds `old`. -/
def refill (old new : Nat) : Cell → Cell
  | unary op a => if a = old then unary op new else unary op a
  | binary op a b =>
    if a = old then binary op new b
    else if b = old then binary op a new
    else binary op a b
  | leaf => leaf

def isLeaf : Cell → Bool
  | number _ | var _ => true
  | unary .. | binary .. => false

/-- The operator with its slots, or the number, or the key of the variable. -/
def text : Cell → String
  | number x => "Number(" ++ decimalText x ++ ")"
  | var key => "Variable(#" ++ toString key.toNat ++ ")"
  | unary op a => op.name ++ "(" ++ toString a ++ ")"
  | binary op a b => op.name ++ "(" ++ toString a ++ ", " ++ toString b ++ ")"

end Cell

structure Forest where
  cells : Array Cell := #[]
  /-- For every cell, the cell whose slot it fills. -/
  parents : Array (Option Nat) := #[]
  root : Option Nat := none
  /-- The cells that were replaced since the last compaction. -/
  retired : Array Nat := #[]
  registry : Registry := {}
deriving DecidableEq, Inhabited

/-- A change of a forest that may fail, and then keeps what it did up to its failure. -/
abbrev Edit := EStateM Fault Forest

namespace Forest

def empty : Forest := {}

/-- The number of cells, whether live or not. -/
def size (f : Forest) : Nat := f.cells.size

/-- The cell whose slot holds `i`. -/
def parent (f : Forest) (i : Nat) : Option Nat := f.parents[i]?.join

/-- The fault in taking `i` for a node, if any. -/
def absent? (f : Forest) (i : Nat) : Option Fault :=
  if i < f.size then none else some .missingNode

/-- The fault in putting `i` into a slot, if any. -/
def unfree? (f : Forest) (i : Nat) : Option Fault :=
  if f.size ≤ i then some .missingNode
  else if (f.parent i).isSome ∨ f.root = some i then some (.alreadyAttached i)
  else none

/-- Whether `new` may take the place of `old`: it is detached or an operand of `old`. -/
def movable (f : Forest) (old new : Nat) : Bool :=
  match f.parent new with
  | none => f.root ≠ some new
  | some p => p = old

end Forest

namespace Edit

variable {α : Type}

def look (view : Forest → α) : Edit α := fun f => .ok (view f) f

/-- Fails with the fault that `check` finds. -/
def require (check : Forest → Option Fault) : Edit Unit := fun f =>
  match check f with
  | none => .ok () f
  | some e => .error e f

/-- A new cell, without parent. -/
def allocate (c : Cell) : Edit Nat := fun f =>
  .ok f.cells.size { f with cells := f.cells.push c, parents := f.parents.push none }

def setParent (i : Nat) (p : Option Nat) : Edit Unit := fun f =>
  .ok () { f with parents := f.parents.setIfInBounds i p }

def number (value : Float) : Edit Nat := allocate (.number value)

def var (key : Key) : Edit Nat := allocate (.var key)

def applyUnary (op : Unary) (a : Nat) : Edit Nat := do
  require (·.unfree? a)
  let i ← allocate (.unary op a)
  setParent a (some i)
  return i

/-- The operands must differ. -/
def applyBinary (op : Binary) (a b : Nat) : Edit Nat := do
  require (·.unfree? a)
  require (·.unfree? b)
  if a = b then throw (.alreadyAttached b)
  let i ← allocate (.binary op a b)
  setParent a (some i)
  setParent b (some i)
  return i

/-- A node for any operator that takes one operand. -/
def unary (op : Operator) (a : Nat) : Edit Nat :=
  match op with
  | .unary op => applyUnary op a
  | .binary _ => throw (.arity op)

/-- A node for any operator that takes two operands. -/
def binary (op : Operator) (a b : Nat) : Edit Nat :=
  match op with
  | .binary op => applyBinary op a b
  | .unary _ => throw (.arity op)

/-- Registers the symbol and gives its key. -/
def register (symbol : Char) : Edit Key := fun f =>
  .ok (.ofSymbol symbol) { f with registry := f.registry.register symbol }

/-- A node for a variable that is registered first. -/
def symbol (symbol : Char) : Edit Nat := do var (← register symbol)

def assign (symbol : Char) (value : Float) : Edit Unit := fun f =>
  match f.registry.assign? symbol value with
  | some r => .ok () { f with registry := r }
  | none => .error (.undefined symbol) f

/-- Forgets the values of all variables. -/
def clear : Edit Unit := fun f => .ok () { f with registry := f.registry.clear }

def rootIndex : Edit Nat := fun f =>
  match f.root with
  | some i => .ok i f
  | none => .error .missingNode f

/-- Makes a node without parent the root. -/
def setRoot (i : Nat) : Edit Unit := do
  require (·.absent? i)
  require fun f => if (f.parent i).isSome then some (.alreadyAttached i) else none
  fun f => .ok () { f with root := some i }

def retire (i : Nat) : Edit Unit := fun f => .ok () { f with retired := f.retired.push i }

/-- In the cell `p`, puts `new` where `old` was. -/
def refill (p old new : Nat) : Edit Unit := do
  require fun f => match f.cells[p]? with
    | some c => if c.isLeaf then some .missingNode else none
    | none => some .missingNode
  fun f => .ok () { f with cells := f.cells.modify p (Cell.refill old new) }

/-- Puts `new` where `old` is, in its slot or as the root, and retires `old`. -/
def replace (old new : Nat) : Edit Unit := do
  require (·.absent? old)
  require (·.absent? new)
  if old = new then return
  require fun f => if f.movable old new then none else some (.alreadyAttached new)
  match ← look (·.parent old) with
  | some p =>
    refill p old new
    setParent new (some p)
  | none =>
    fun f => .ok () (if f.root = some old then { f with root := some new } else f)
    setParent new none
  setParent old none
  retire old

end Edit

end Fluxion
