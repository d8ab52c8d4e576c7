/-!
# Sets of code points

A set of code points is given by its switches: the code points, in increasing order, at
which membership changes, starting from outside. A code point belongs to the set if and
only if an odd number of switches do not exceed it.
-/

namespace Fluxion

structure CodePoints where
  switches : Array Nat

namespace CodePoints

/-- The number of switches that do not exceed `n`, and so its place among them. -/
def place (s : CodePoints) (n : Nat) : Nat := go s.switches.size 0 s.switches.size
where
  /-- Bisects the switches from `lo` up to below `hi`. -/
  go : Nat → Nat → Nat → Nat
    | 0, lo, _ => lo
    | fuel + 1, lo, hi =>
      if lo < hi then
        let mid := (lo + hi) / 2
        if s.switches[mid]?.any (· ≤ n) then go fuel (mid + 1) hi else go fuel lo mid
      else lo

/-- Whether the switches are in increasing order. -/
def ordered (s : CodePoints) : Bool :=
  (s.switches.toList.zip s.switches.toList.tail).all fun p => p.1 < p.2

def contains (s : CodePoints) (c : Char) : Bool := s.place c.toNat % 2 == 1

end CodePoints

end Fluxion
