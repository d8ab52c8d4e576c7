import Fluxion.Forest.Order

/-!
# Copies

New expressions made from old ones: of a term, of a node of the same forest and of a node
of another one. All three run a postfix program that allocates a cell at each step, so
the cells of a copy stand in postorder and no cell is shared with the source.
-/

namespace Fluxion

namespace Edit

def copying : Algebra Edit Key Nat := ⟨number, var, applyUnary, applyBinary⟩

/-- Registers the symbols of variables as they are met. -/
def planting : Algebra Edit Char Nat := ⟨number, symbol, applyUnary, applyBinary⟩

/-- Registers the symbols of variables that have one. -/
def grafting : Algebra Edit (Option Char × Key) Nat where
  number := number
  var := fun (symbol?, key) => do
    if let some symbol := symbol? then discard (register symbol)
    var key
  unary := applyUnary
  binary := applyBinary

/-- A copy of the expression at `i`. -/
def copy (i : Nat) : Edit Nat := do
  require (·.absent? i)
  copying.run (← look (·.program i))

def plant (t : Term Char) : Edit Nat := planting.run t.program

/-- A copy of the expression at `i` of `other`, with the symbols of its variables. -/
def graft (other : Forest) (i : Nat) : Edit Nat := do
  if let some fault := other.absent? i then throw fault
  grafting.run ((other.program i).map (Step.map fun key =>
    ((other.registry.find? key).map (·.symbol), key)))

end Edit

/-- The forest that holds the term and nothing else. -/
def Forest.ofTerm (t : Term Char) : Except Fault Forest :=
  match (do Edit.setRoot (← Edit.plant t) : Edit Unit) .empty with
  | .ok _ f => .ok f
  | .error fault _ => .error fault

end Fluxion
