import Fluxion.Forest.Order

/-!
# Compaction

Compaction keeps the live cells, renumbers them in preorder from the root at index 0, and
forgets the retired ones. A cell that is live on several paths is kept once for each, and
all slots that held it then hold its last copy.
-/

namespace Fluxion

def Cell.renumber (place : Nat → Nat) : Cell → Cell
  | unary op a => unary op (place a)
  | binary op a b => binary op (place a) (place b)
  | leaf => leaf

namespace Forest

/-- For every cell its last position in `order`. -/
def places (size : Nat) (order : List Nat) : Array Nat :=
  (order.foldl (fun (place, n) i => (place.setIfInBounds i n, n + 1))
    (Array.replicate size 0, 0)).1

/-- The parents that the slots of the cells induce; a later cell overrides an earlier one. -/
def inducedParents (cells : Array Cell) : Array (Option Nat) :=
  (cells.foldl (fun (parents, i) c =>
    (match c with
      | .unary _ a => parents.setIfInBounds a (some i)
      | .binary _ a b => (parents.setIfInBounds a (some i)).setIfInBounds b (some i)
      | _ => parents, i + 1))
    (Array.replicate cells.size none, 0)).1

def compact (f : Forest) : Forest :=
  match f.root with
  | none => { registry := f.registry }
  | some root =>
    let order := f.preorder root
    let place := places f.size order
    let cells := (order.filterMap fun i =>
      f.cells[i]?.map (Cell.renumber fun j => place[j]?.getD 0)).toArray
    { cells, parents := inducedParents cells, root := some 0, registry := f.registry }

end Forest

def Edit.compact : Edit Unit := fun f => .ok () f.compact

end Fluxion
