import Fluxion.Forest.Order
import Mathlib.Data.List.Nodup
import Mathlib.Data.List.Perm.Subperm

/-!
# Trees in a forest

A tree is a term whose nodes carry the indices of cells. It fits the cells if each of its
nodes is what the cell with its index holds, and it is linked if each of its nodes below
the top is recorded as filling a slot of the node above it. Nothing is said here about
cells that belong to no tree.
-/

namespace Fluxion

inductive Tree where
  | number (i : Nat) (value : Float)
  | var (i : Nat) (key : Key)
  | unary (i : Nat) (op : Unary) (t : Tree)
  | binary (i : Nat) (op : Binary) (s t : Tree)

namespace Tree

def top : Tree → Nat
  | number i _ | var i _ | unary i _ _ | binary i _ _ _ => i

def term : Tree → Term Key
  | number _ x => .number x
  | var _ key => .var key
  | unary _ op t => .unary op t.term
  | binary _ op s t => .binary op s.term t.term

/-- What the cell of the top holds. -/
def cell : Tree → Cell
  | number _ x => .number x
  | var _ key => .var key
  | unary _ op t => .unary op t.top
  | binary _ op s t => .binary op s.top t.top

/-- The nodes below the top, operands before their operator and the left one first. -/
def under : Tree → List Nat
  | number _ _ | var _ _ => []
  | unary _ _ t => t.under ++ [t.top]
  | binary _ _ s t => (s.under ++ [s.top]) ++ (t.under ++ [t.top])

def nodes (t : Tree) : List Nat := t.under ++ [t.top]

/-- The nodes, operands before their operator and the right one first. -/
def descendants : Tree → List Nat
  | number i _ | var i _ => [i]
  | unary i _ t => t.descendants ++ [i]
  | binary i _ s t => t.descendants ++ s.descendants ++ [i]

def depth : Tree → Nat
  | number _ _ | var _ _ => 1
  | unary _ _ t => t.depth + 1
  | binary _ _ s t => max s.depth t.depth + 1

/-- Every node is what its cell holds. -/
def Fits (cells : Array Cell) : Tree → Prop
  | number i x => cells[i]? = some (.number x)
  | var i key => cells[i]? = some (.var key)
  | unary i op t => cells[i]? = some (.unary op t.top) ∧ t.Fits cells
  | binary i op s t =>
    cells[i]? = some (.binary op s.top t.top) ∧ s.Fits cells ∧ t.Fits cells

/-- Every node below the top has the node above it for its parent. -/
def Linked (parent : Nat → Option Nat) : Tree → Prop
  | number _ _ | var _ _ => True
  | unary i _ t => parent t.top = some i ∧ t.Linked parent
  | binary i _ s t =>
    parent s.top = some i ∧ parent t.top = some i ∧ s.Linked parent ∧ t.Linked parent

@[simp] theorem top_number (i : Nat) (x : Float) : (number i x).top = i := rfl
@[simp] theorem top_var (i : Nat) (key : Key) : (var i key).top = i := rfl
@[simp] theorem top_unary (i : Nat) (op : Unary) (t : Tree) : (unary i op t).top = i := rfl
@[simp] theorem top_binary (i : Nat) (op : Binary) (s t : Tree) :
    (binary i op s t).top = i := rfl

@[simp] theorem nodes_number (i : Nat) (x : Float) : (number i x).nodes = [i] := rfl
@[simp] theorem nodes_var (i : Nat) (key : Key) : (var i key).nodes = [i] := rfl
@[simp] theorem nodes_unary (i : Nat) (op : Unary) (t : Tree) :
    (unary i op t).nodes = t.nodes ++ [i] := rfl
@[simp] theorem nodes_binary (i : Nat) (op : Binary) (s t : Tree) :
    (binary i op s t).nodes = s.nodes ++ t.nodes ++ [i] := rfl

@[simp] theorem under_unary (i : Nat) (op : Unary) (t : Tree) :
    (unary i op t).under = t.nodes := rfl

@[simp] theorem under_binary (i : Nat) (op : Binary) (s t : Tree) :
    (binary i op s t).under = s.nodes ++ t.nodes := rfl

@[simp] theorem top_mem_nodes (t : Tree) : t.top ∈ t.nodes := by
  simp [nodes]

theorem mem_nodes {t : Tree} {i : Nat} : i ∈ t.nodes ↔ i ∈ t.under ∨ i = t.top := by
  simp [nodes]

theorem top_notMem_under {t : Tree} (h : t.nodes.Nodup) : t.top ∉ t.under := by
  intro hm
  exact (List.disjoint_of_nodup_append h) hm (by simp)

theorem nodup_unary {i : Nat} {op : Unary} {t : Tree} (h : (unary i op t).nodes.Nodup) :
    t.nodes.Nodup ∧ i ∉ t.nodes := by
  rw [nodes_unary, List.nodup_append] at h
  obtain ⟨nodup, -, last⟩ := h
  constructor
  · exact nodup
  · intro hi
    exact last i hi i (by simp) rfl

theorem nodup_binary {i : Nat} {op : Binary} {s t : Tree}
    (h : (binary i op s t).nodes.Nodup) :
    s.nodes.Nodup ∧ t.nodes.Nodup ∧ (∀ j ∈ s.nodes, j ∉ t.nodes) ∧ i ∉ s.nodes ∧
      i ∉ t.nodes := by
  rw [nodes_binary, List.nodup_append, List.nodup_append] at h
  obtain ⟨⟨nodupLeft, nodupRight, apart⟩, -, last⟩ := h
  refine ⟨nodupLeft, nodupRight, ?_, ?_, ?_⟩
  · intro j hs ht
    exact apart j hs j ht rfl
  · intro hi
    exact last i (by simp [hi]) i (by simp) rfl
  · intro hi
    exact last i (by simp [hi]) i (by simp) rfl

theorem descendants_perm (t : Tree) : t.descendants.Perm t.nodes := by
  induction t with
  | number i x => exact List.Perm.refl _
  | var i key => exact List.Perm.refl _
  | unary i op t ih => exact ih.append_right [i]
  | binary i op s t ihs iht =>
    exact ((iht.append ihs).trans List.perm_append_comm).append_right [i]

theorem length_descendants (t : Tree) : t.descendants.length = t.term.size := by
  induction t with
  | number i x => rfl
  | var i key => rfl
  | unary i op t ih => simp [descendants, term, Term.size, ih]
  | binary i op s t ihs iht =>
    simp only [descendants, term, Term.size, List.length_append, List.length_singleton]
    omega

theorem length_nodes (t : Tree) : t.nodes.length = t.term.size :=
  t.descendants_perm.length_eq.symm.trans t.length_descendants

namespace Fits

variable {cells cells' : Array Cell} {s t : Tree}

theorem cell (h : t.Fits cells) : cells[t.top]? = some t.cell := by
  cases t with
  | number i x => exact h
  | var i key => exact h
  | unary i op t => exact h.1
  | binary i op s t => exact h.1

theorem top_lt (h : t.Fits cells) : t.top < cells.size := by
  obtain ⟨hi, _⟩ := Array.getElem?_eq_some_iff.mp h.cell
  exact hi

theorem lt (h : t.Fits cells) : ∀ i ∈ t.nodes, i < cells.size := by
  induction t with
  | number i x =>
    intro j hj
    rw [nodes_number, List.mem_singleton] at hj
    exact hj ▸ h.top_lt
  | var i key =>
    intro j hj
    rw [nodes_var, List.mem_singleton] at hj
    exact hj ▸ h.top_lt
  | unary i op t ih =>
    intro j hj
    rw [nodes_unary, List.mem_append, List.mem_singleton] at hj
    rcases hj with hj | rfl
    · exact ih h.2 j hj
    · exact h.top_lt
  | binary i op s t ihs iht =>
    intro j hj
    rw [nodes_binary, List.mem_append, List.mem_append, List.mem_singleton] at hj
    rcases hj with (hj | hj) | rfl
    · exact ihs h.2.1 j hj
    · exact iht h.2.2 j hj
    · exact h.top_lt

theorem congr (h : t.Fits cells) (same : ∀ i ∈ t.nodes, cells'[i]? = cells[i]?) :
    t.Fits cells' := by
  induction t with
  | number i x => exact (same i (by simp)).trans h
  | var i key => exact (same i (by simp)).trans h
  | unary i op t ih =>
    constructor
    · exact (same i (by simp)).trans h.1
    · apply ih h.2
      intro j hj
      exact same j (by simp [hj])
  | binary i op s t ihs iht =>
    refine ⟨(same i (by simp)).trans h.1, ihs h.2.1 ?_, iht h.2.2 ?_⟩
    · intro j hj
      exact same j (by simp [hj])
    · intro j hj
      exact same j (by simp [hj])

/-- Only one tree has its top in a given cell. -/
theorem unique (hs : s.Fits cells) (ht : t.Fits cells) (top : s.top = t.top) : s = t := by
  induction s generalizing t with
  | number i x =>
    have hc := hs.cell.symm.trans (top ▸ ht.cell)
    cases t <;> simp_all [Tree.cell]
  | var i key =>
    have hc := hs.cell.symm.trans (top ▸ ht.cell)
    cases t <;> simp_all [Tree.cell]
  | unary i op s ih =>
    have hc := hs.cell.symm.trans (top ▸ ht.cell)
    cases t with
    | number j x => simp [Tree.cell] at hc
    | var j key => simp [Tree.cell] at hc
    | binary j op' t₁ t₂ => simp [Tree.cell] at hc
    | unary j op' t =>
      simp only [Tree.cell, Option.some.injEq, Cell.unary.injEq] at hc
      have hi : i = j := top
      rw [hi, hc.1, ih hs.2 ht.2 hc.2]
  | binary i op s₁ s₂ ih₁ ih₂ =>
    have hc := hs.cell.symm.trans (top ▸ ht.cell)
    cases t with
    | number j x => simp [Tree.cell] at hc
    | var j key => simp [Tree.cell] at hc
    | unary j op' t => simp [Tree.cell] at hc
    | binary j op' t₁ t₂ =>
      simp only [Tree.cell, Option.some.injEq, Cell.binary.injEq] at hc
      have hi : i = j := top
      rw [hi, hc.1, ih₁ hs.2.1 ht.2.1 hc.2.1, ih₂ hs.2.2 ht.2.2 hc.2.2]

end Fits

theorem Linked.congr {parent parent' : Nat → Option Nat} {t : Tree} (h : t.Linked parent)
    (same : ∀ i ∈ t.under, parent' i = parent i) : t.Linked parent' := by
  induction t with
  | number i x => trivial
  | var i key => trivial
  | unary i op t ih =>
    constructor
    · exact (same t.top (by simp)).trans h.1
    · apply ih h.2
      intro j hj
      exact same j (by simp [mem_nodes, hj])
  | binary i op s t ihs iht =>
    refine ⟨(same s.top (by simp)).trans h.1, (same t.top (by simp)).trans h.2.1,
      ihs h.2.2.1 ?_, iht h.2.2.2 ?_⟩
    · intro j hj
      exact same j (by simp [mem_nodes, hj])
    · intro j hj
      exact same j (by simp [mem_nodes, hj])

/-- A part of a tree at every depth, from the top down to a deepest leaf. -/
def spine : Tree → List Tree
  | number i x => [number i x]
  | var i key => [var i key]
  | unary i op t => unary i op t :: t.spine
  | binary i op s t => binary i op s t :: if t.depth ≤ s.depth then s.spine else t.spine

theorem length_spine (t : Tree) : t.spine.length = t.depth := by
  induction t with
  | number i x => rfl
  | var i key => rfl
  | unary i op t ih => simp [spine, depth, ih]
  | binary i op s t ihs iht =>
    by_cases h : t.depth ≤ s.depth
    · simp [spine, depth, h, ihs]
    · simp only [spine, depth, h, if_false, List.length_cons, iht]
      omega

theorem Fits.of_mem_spine {cells : Array Cell} {t : Tree} (h : t.Fits cells) :
    ∀ s ∈ t.spine, s.Fits cells ∧ s.depth ≤ t.depth := by
  induction t with
  | number i x =>
    intro s hs
    rw [spine, List.mem_singleton] at hs
    subst hs
    exact ⟨h, Nat.le_refl _⟩
  | var i key =>
    intro s hs
    rw [spine, List.mem_singleton] at hs
    subst hs
    exact ⟨h, Nat.le_refl _⟩
  | unary i op t ih =>
    intro s hs
    rw [spine, List.mem_cons] at hs
    rcases hs with rfl | hs
    · exact ⟨h, Nat.le_refl _⟩
    · obtain ⟨hf, hd⟩ := ih h.2 s hs
      refine ⟨hf, ?_⟩
      rw [depth]
      omega
  | binary i op t₁ t₂ ih₁ ih₂ =>
    intro s hs
    rw [spine, List.mem_cons] at hs
    rcases hs with rfl | hs
    · exact ⟨h, Nat.le_refl _⟩
    · split at hs
      · obtain ⟨hf, hd⟩ := ih₁ h.2.1 s hs
        refine ⟨hf, ?_⟩
        rw [depth]
        omega
      · obtain ⟨hf, hd⟩ := ih₂ h.2.2 s hs
        refine ⟨hf, ?_⟩
        rw [depth]
        omega

/-- No node lies below itself, so no path visits a cell twice. -/
theorem Fits.nodup_spine {cells : Array Cell} {t : Tree} (h : t.Fits cells) :
    (t.spine.map top).Nodup := by
  have other {t s : Tree} (ht : t.Fits cells) (hs : s.Fits cells) (hd : s.depth < t.depth) :
      t.top ≠ s.top := by
    intro he
    have := ht.unique hs he
    subst this
    omega
  induction t with
  | number i x => simp [spine]
  | var i key => simp [spine]
  | unary i op t ih =>
    rw [spine, List.map_cons, List.nodup_cons]
    refine ⟨?_, ih h.2⟩
    rw [List.mem_map]
    rintro ⟨s, hs, he⟩
    obtain ⟨hf, hd⟩ := h.2.of_mem_spine s hs
    exact other h hf (by rw [depth]; omega) he.symm
  | binary i op t₁ t₂ ih₁ ih₂ =>
    rw [spine, List.map_cons, List.nodup_cons]
    constructor
    · rw [List.mem_map]
      rintro ⟨s, hs, he⟩
      split at hs
      · obtain ⟨hf, hd⟩ := h.2.1.of_mem_spine s hs
        exact other h hf (by rw [depth]; omega) he.symm
      · obtain ⟨hf, hd⟩ := h.2.2.of_mem_spine s hs
        exact other h hf (by rw [depth]; omega) he.symm
    · split
      · exact ih₁ h.2.1
      · exact ih₂ h.2.2

theorem length_le_of_nodup_of_lt {ns : List Nat} {n : Nat} (nodup : ns.Nodup)
    (lt : ∀ i ∈ ns, i < n) : ns.length ≤ n := by
  have sub : ns ⊆ List.range n := fun i hi => List.mem_range.mpr (lt i hi)
  simpa using (nodup.subperm sub).length_le

theorem Fits.depth_le {cells : Array Cell} {t : Tree} (h : t.Fits cells) :
    t.depth ≤ cells.size := by
  have lt : ∀ i ∈ t.spine.map top, i < cells.size := by
    intro i hi
    obtain ⟨s, hs, rfl⟩ := List.mem_map.mp hi
    exact (h.of_mem_spine s hs).1.top_lt
  simpa [length_spine] using length_le_of_nodup_of_lt h.nodup_spine lt

end Tree

end Fluxion
