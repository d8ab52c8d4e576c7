import Fluxion.Forest.Order

/-!
# Equivalence

Two forests are equivalent if their live expressions have the same shape, the same
operators and variables and equal numbers. Indices do not matter.
-/

namespace Fluxion.Forest

def matches? (cs ds : Array Cell) : Nat → Nat → Nat → Bool
  | 0, _, _ => false
  | depth + 1, i, j =>
    match cs[i]?, ds[j]? with
    | some (.number x), some (.number y) => x == y
    | some (.var k), some (.var l) => k == l
    | some (.unary o a), some (.unary p b) => o = p && matches? cs ds depth a b
    | some (.binary o a b), some (.binary p c d) =>
      o = p && matches? cs ds depth a c && matches? cs ds depth b d
    | _, _ => false

def equivalent (f g : Forest) : Bool :=
  match f.root, g.root with
  | some i, some j => matches? f.cells g.cells f.size i j
  | none, none => true
  | _, _ => false

end Fluxion.Forest
