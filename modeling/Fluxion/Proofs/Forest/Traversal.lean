import Fluxion.Proofs.Forest.Tree
import Fluxion.Proofs.Programs

/-!
# Traversals of a tree

On a tree that fits, every order of traversal lists the nodes of the tree, and what is read
off is its term. The bound on the depth does not cut anything off.
-/

namespace Fluxion

/-- A tree has a positive depth. -/
theorem Tree.exists_succ_of_depth_le {t : Tree} {depth : Nat} (deep : t.depth ≤ depth) :
    ∃ d, depth = d + 1 := by
  have pos : 0 < t.depth := by cases t <;> simp [Tree.depth]
  exact ⟨depth - 1, by omega⟩

namespace Forest

variable {cells : Array Cell} {t : Tree} {depth : Nat}

theorem postorderOnto_eq (h : t.Fits cells) (deep : t.depth ≤ depth) (rest : List Nat) :
    postorderOnto cells depth t.top rest = t.nodes ++ rest := by
  induction t generalizing depth rest with
  | number i x =>
    obtain ⟨d, rfl⟩ := Tree.exists_succ_of_depth_le deep
    rw [postorderOnto, h.cell]
    rfl
  | var i key =>
    obtain ⟨d, rfl⟩ := Tree.exists_succ_of_depth_le deep
    rw [postorderOnto, h.cell]
    rfl
  | unary i op t ih =>
    obtain ⟨d, rfl⟩ := Tree.exists_succ_of_depth_le deep
    rw [postorderOnto, h.cell]
    simp only [Tree.cell]
    rw [ih h.2 (Nat.le_of_succ_le_succ deep)]
    simp
  | binary i op s t ihs iht =>
    obtain ⟨d, rfl⟩ := Tree.exists_succ_of_depth_le deep
    have both := Nat.max_le.mp (Nat.le_of_succ_le_succ deep)
    rw [postorderOnto, h.cell]
    simp only [Tree.cell]
    rw [iht h.2.2 both.2, ihs h.2.1 both.1]
    simp

theorem descendantsOnto_eq (h : t.Fits cells) (deep : t.depth ≤ depth) (rest : List Nat) :
    descendantsOnto cells depth t.top rest = t.descendants ++ rest := by
  induction t generalizing depth rest with
  | number i x =>
    obtain ⟨d, rfl⟩ := Tree.exists_succ_of_depth_le deep
    rw [descendantsOnto, h.cell]
    rfl
  | var i key =>
    obtain ⟨d, rfl⟩ := Tree.exists_succ_of_depth_le deep
    rw [descendantsOnto, h.cell]
    rfl
  | unary i op t ih =>
    obtain ⟨d, rfl⟩ := Tree.exists_succ_of_depth_le deep
    rw [descendantsOnto, h.cell]
    simp only [Tree.cell]
    rw [ih h.2 (Nat.le_of_succ_le_succ deep)]
    simp [Tree.descendants]
  | binary i op s t ihs iht =>
    obtain ⟨d, rfl⟩ := Tree.exists_succ_of_depth_le deep
    have both := Nat.max_le.mp (Nat.le_of_succ_le_succ deep)
    rw [descendantsOnto, h.cell]
    simp only [Tree.cell]
    rw [ihs h.2.1 both.1, iht h.2.2 both.2]
    simp [Tree.descendants]

theorem termWithin?_eq (h : t.Fits cells) (deep : t.depth ≤ depth) :
    termWithin? cells depth t.top = some t.term := by
  induction t generalizing depth with
  | number i x =>
    obtain ⟨d, rfl⟩ := Tree.exists_succ_of_depth_le deep
    rw [termWithin?, h.cell]
    rfl
  | var i key =>
    obtain ⟨d, rfl⟩ := Tree.exists_succ_of_depth_le deep
    rw [termWithin?, h.cell]
    rfl
  | unary i op t ih =>
    obtain ⟨d, rfl⟩ := Tree.exists_succ_of_depth_le deep
    rw [termWithin?, h.cell]
    simp only [Tree.cell]
    rw [ih h.2 (Nat.le_of_succ_le_succ deep)]
    rfl
  | binary i op s t ihs iht =>
    obtain ⟨d, rfl⟩ := Tree.exists_succ_of_depth_le deep
    have both := Nat.max_le.mp (Nat.le_of_succ_le_succ deep)
    rw [termWithin?, h.cell]
    simp only [Tree.cell]
    rw [ihs h.2.1 both.1, iht h.2.2 both.2]
    rfl

end Forest

namespace Tree

variable {cells : Array Cell} {t : Tree}

theorem Fits.steps (h : t.Fits cells) :
    t.nodes.filterMap (fun j => cells[j]?.map Cell.step) = t.term.program := by
  induction t with
  | number i x =>
    have hc := h.cell
    simp_all [term, Tree.cell, Cell.step]
  | var i key =>
    have hc := h.cell
    simp_all [term, Tree.cell, Cell.step]
  | unary i op t ih =>
    have hc := h.cell
    simp only [top_unary, Tree.cell] at hc
    simp [term, List.filterMap_append, ih h.2, hc, Cell.step]
  | binary i op s t ihs iht =>
    have hc := h.cell
    simp only [top_binary, Tree.cell] at hc
    simp [term, List.filterMap_append, ihs h.2.1, iht h.2.2, hc, Cell.step]

end Tree

namespace Forest

variable {f : Forest} {t : Tree}

theorem postorder_eq (h : t.Fits f.cells) : f.postorder t.top = t.nodes := by
  have deep : t.depth ≤ f.size := h.depth_le
  rw [postorder, postorderOnto_eq h deep, List.append_nil]

theorem descendantsFirst_eq (h : t.Fits f.cells) :
    f.descendantsFirst t.top = t.descendants := by
  have deep : t.depth ≤ f.size := h.depth_le
  rw [descendantsFirst, descendantsOnto_eq h deep, List.append_nil]

theorem preorder_eq (h : t.Fits f.cells) : f.preorder t.top = t.descendants.reverse := by
  rw [preorder, descendantsFirst_eq h]

theorem program_eq (h : t.Fits f.cells) : f.program t.top = t.term.program := by
  rw [program, postorder_eq h, h.steps]

theorem term?_eq (h : t.Fits f.cells) : f.term? t.top = some t.term :=
  termWithin?_eq h h.depth_le

theorem liveSize_eq (h : t.Fits f.cells) (root : f.root = some t.top) :
    f.liveSize = t.term.size := by
  simp only [liveSize, root]
  rw [descendantsFirst_eq h, t.length_descendants]

end Forest

end Fluxion
