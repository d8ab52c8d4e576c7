import Fluxion.Proofs.Forest.Context
import Fluxion.Proofs.Forest.Traversal

/-!
# Substitution for a node

The term of a node when one of the nodes below it stands for another term than its own. In a
tree this is the old term, with the part at that node replaced.
-/

namespace Fluxion

namespace Forest

/-- As `termWithin?`, where the node `hole` stands for `e`. -/
def termPuttingWithin? (cells : Array Cell) (hole : Nat) (e : Term Key) :
    Nat → Nat → Option (Term Key)
  | 0, _ => none
  | depth + 1, i =>
    if i = hole then some e
    else match cells[i]? with
      | none => none
      | some (.number x) => some (.number x)
      | some (.var key) => some (.var key)
      | some (.unary op a) => (termPuttingWithin? cells hole e depth a).map (.unary op)
      | some (.binary op a b) => do
        let s ← termPuttingWithin? cells hole e depth a
        let t ← termPuttingWithin? cells hole e depth b
        return .binary op s t

/-- The term that the node `i` stands for when the node `hole` stands for `e`. -/
def termPutting? (f : Forest) (hole : Nat) (e : Term Key) (i : Nat) : Option (Term Key) :=
  termPuttingWithin? f.cells hole e f.size i

end Forest

namespace Tree

/-- The term, where the node `hole` stands for `e`. -/
def putting (hole : Nat) (e : Term Key) : Tree → Term Key
  | number i x => if i = hole then e else .number x
  | var i key => if i = hole then e else .var key
  | unary i op t => if i = hole then e else .unary op (t.putting hole e)
  | binary i op s t =>
    if i = hole then e else .binary op (s.putting hole e) (t.putting hole e)

variable {s t : Tree} {hole : Nat} {e : Term Key}

theorem putting_top (t : Tree) (e : Term Key) : t.putting t.top e = e := by
  cases t <;> simp [putting]

theorem putting_of_notMem (h : hole ∉ t.nodes) : t.putting hole e = t.term := by
  induction t with
  | number i x =>
    have ne : i ≠ hole := fun he => h (by simp [he])
    rw [putting, if_neg ne, term]
  | var i key =>
    have ne : i ≠ hole := fun he => h (by simp [he])
    rw [putting, if_neg ne, term]
  | unary i op t ih =>
    rw [nodes_unary, List.mem_append, not_or] at h
    have ne : i ≠ hole := fun he => h.2 (by simp [he])
    rw [putting, if_neg ne, term, ih h.1]
  | binary i op s t ihs iht =>
    rw [nodes_binary, List.mem_append, List.mem_append, not_or, not_or] at h
    have ne : i ≠ hole := fun he => h.2 (by simp [he])
    rw [putting, if_neg ne, term, ihs h.1.1, iht h.1.2]

/-- Outside of the hole, the context reads as before. -/
theorem putting_plug {k : Context} {u : Tree} (off : hole ∉ k.nodes)
    (h : s.putting hole e = u.term) : (k.plug s).putting hole e = (k.plug u).term := by
  induction k generalizing s u with
  | nil => exact h
  | cons c k ih =>
    rw [Context.nodes, List.cons_append, List.mem_cons, List.mem_append, not_or, not_or] at off
    obtain ⟨node, side, rest⟩ := off
    apply ih rest
    cases c with
    | unary i op =>
      have ne : i ≠ hole := fun he => node he.symm
      rw [Frame.fill, Frame.fill, putting, if_neg ne, term, h]
    | left i op t =>
      have ne : i ≠ hole := fun he => node he.symm
      rw [Frame.fill, Frame.fill, putting, if_neg ne, term, h, putting_of_notMem side]
    | right i op r =>
      have ne : i ≠ hole := fun he => node he.symm
      rw [Frame.fill, Frame.fill, putting, if_neg ne, term, h, putting_of_notMem side]

end Tree

namespace Forest

variable {cells : Array Cell} {f : Forest} {t : Tree} {hole depth : Nat} {e : Term Key}

theorem termPuttingWithin?_eq (h : t.Fits cells) (deep : t.depth ≤ depth) :
    termPuttingWithin? cells hole e depth t.top = some (t.putting hole e) := by
  induction t generalizing depth with
  | number i x =>
    obtain ⟨d, rfl⟩ := Tree.exists_succ_of_depth_le deep
    rw [termPuttingWithin?, h.cell, Tree.putting]
    by_cases here : i = hole <;> simp [here, Tree.cell]
  | var i key =>
    obtain ⟨d, rfl⟩ := Tree.exists_succ_of_depth_le deep
    rw [termPuttingWithin?, h.cell, Tree.putting]
    by_cases here : i = hole <;> simp [here, Tree.cell]
  | unary i op t ih =>
    obtain ⟨d, rfl⟩ := Tree.exists_succ_of_depth_le deep
    have operand := ih h.2 (Nat.le_of_succ_le_succ deep)
    rw [termPuttingWithin?, h.cell, Tree.putting]
    by_cases here : i = hole <;> simp [here, Tree.cell, operand]
  | binary i op s t ihs iht =>
    obtain ⟨d, rfl⟩ := Tree.exists_succ_of_depth_le deep
    have both := Nat.max_le.mp (Nat.le_of_succ_le_succ deep)
    have left := ihs h.2.1 both.1
    have right := iht h.2.2 both.2
    rw [termPuttingWithin?, h.cell, Tree.putting]
    by_cases here : i = hole <;> simp [here, Tree.cell, left, right]

theorem termPutting?_eq (h : t.Fits f.cells) (hole : Nat) (e : Term Key) :
    f.termPutting? hole e t.top = some (t.putting hole e) :=
  termPuttingWithin?_eq h h.depth_le

/-- A part of a tree is replaced, and the rest reads as before. -/
theorem termPutting?_plug {k : Context} {s u : Tree} (h : (k.plug s).Fits f.cells)
    (off : s.top ∉ k.nodes) :
    f.termPutting? s.top u.term (k.plug s).top = some (k.plug u).term := by
  rw [termPutting?_eq h, Tree.putting_plug off (s.putting_top u.term)]

end Forest

end Fluxion
