import Fluxion.Proofs.Forest.Building
import Fluxion.Proofs.Forest.Compaction

/-!
# Packed forests

In a compacted forest every cell is live and stands at its place in the preorder. What is in
such a forest, down to the last slot and parent, is settled by its registry and by the term that
lives in it.
-/

namespace Fluxion

namespace Tree

theorem descendants_renumber (place : Nat → Nat) (t : Tree) :
    (t.renumber place).descendants = t.descendants.map place := by
  induction t with
  | number i x => rfl
  | var i key => rfl
  | unary i op t ih => simp [renumber, descendants, ih]
  | binary i op s t ihs iht => simp [renumber, descendants, ihs, iht]

/-- A term can be laid out over a list of cells in one way only. -/
theorem eq_of_descendants {s t : Tree} (term : s.term = t.term)
    (order : s.descendants = t.descendants) : s = t := by
  induction s generalizing t with
  | number i x =>
    cases t with
    | number j y =>
      cases term
      cases order
      rfl
    | var j key => cases term
    | unary j op t => cases term
    | binary j op t₁ t₂ => cases term
  | var i key =>
    cases t with
    | var j key' =>
      cases term
      cases order
      rfl
    | number j y => cases term
    | unary j op t => cases term
    | binary j op t₁ t₂ => cases term
  | unary i op s ih =>
    cases t with
    | number j y => cases term
    | var j key => cases term
    | binary j op' t₁ t₂ => cases term
    | unary j op' t =>
      simp only [Tree.term, Term.unary.injEq] at term
      obtain ⟨operand, last⟩ := List.append_inj' order rfl
      rw [term.1, ih term.2 operand, List.singleton_inj.mp last]
  | binary i op s₁ s₂ ih₁ ih₂ =>
    cases t with
    | number j y => cases term
    | var j key => cases term
    | unary j op' t => cases term
    | binary j op' t₁ t₂ =>
      simp only [Tree.term, Term.binary.injEq] at term
      obtain ⟨operands, last⟩ := List.append_inj' order rfl
      have sizes : s₂.descendants.length = t₂.descendants.length := by
        rw [length_descendants, length_descendants, term.2.2]
      obtain ⟨right, left⟩ := List.append_inj operands sizes
      rw [term.1, ih₁ term.2.1 left, ih₂ term.2.2 right, List.singleton_inj.mp last]

end Tree

namespace Forest

variable {f g : Forest} {m : Mark} {l : Tree} {ts : List Tree} {r : Registry} {t : Term Key}

/-- Of the cells of a tree that holds both forests, the contents and the parents are the same. -/
theorem Holds.agree (hf : f.Holds ⟨r, 0⟩ (some l) []) (hg : g.Holds ⟨r, 0⟩ (some l) []) {i : Nat}
    (hi : i ∈ l.nodes) : f.cells[i]? = g.cells[i]? ∧ f.parent i = g.parent i := by
  obtain ⟨k, s, rfl, rfl⟩ := Tree.exists_plug hi
  constructor
  · rw [(Context.fits_plug.mp hf.fits_live).1.cell, (Context.fits_plug.mp hg.fits_live).1.cell]
  · rw [hf.stands.parent_hole, hg.stands.parent_hole]

/-- Two forests are the same if they hold the same tree and have no other cells. -/
theorem Holds.eq_of_all (hf : f.Holds ⟨r, 0⟩ (some l) []) (hg : g.Holds ⟨r, 0⟩ (some l) [])
    (size : f.size = g.size) (retired : f.retired = g.retired)
    (all : ∀ i < f.size, i ∈ l.nodes) : f = g := by
  have cells : f.cells = g.cells := by
    apply Array.ext size
    intro i hi hi'
    apply Option.some.inj
    rw [← Array.getElem?_eq_getElem hi, ← Array.getElem?_eq_getElem hi']
    exact (hf.agree hg (all i hi)).1
  have parents : f.parents = g.parents := by
    have sizes : f.parents.size = g.parents.size :=
      hf.stands.sizes.trans (size.trans hg.stands.sizes.symm)
    apply Array.ext sizes
    intro i hi hi'
    have lt : i < f.cells.size := hf.stands.sizes ▸ hi
    have same := (hf.agree hg (all i lt)).2
    simpa [parent, hi, hi'] using same
  have root : f.root = g.root := hf.root.trans hg.root.symm
  have registry : f.registry = g.registry := hf.stands.registry.trans hg.stands.registry.symm
  cases f
  cases g
  simp_all

/-- The cells of `f` are those of a tree of the term, in preorder. -/
def Packed (f : Forest) (r : Registry) (t : Term Key) : Prop :=
  ∃ l : Tree, l.term = t ∧ l.descendants.reverse = List.range f.size ∧ f.retired = #[] ∧
    f.Holds ⟨r, 0⟩ (some l) []

theorem compact_packed (fits : l.Fits f.cells) (root : f.root = some l.top)
    (nodup : l.nodes.Nodup) : f.compact.Packed f.registry l.term := by
  have nodup' := (preorder_perm fits).nodup_iff.mpr nodup
  refine ⟨_, l.term_renumber _, ?_, retired_compact f, compact_renumber fits root nodup 0⟩
  rw [size_compact fits root, ← map_placeOf nodup' (inside_preorder fits), preorder_eq fits,
    Tree.descendants_renumber, List.map_reverse]

theorem Holds.compact_packed (h : f.Holds m (some l) ts) : f.compact.Packed m.registry l.term :=
  h.stands.registry ▸ Forest.compact_packed h.fits_live h.root h.stands.nodup_head

namespace Packed

/-- Nothing is retired, so that no more is known of some retired cells than of others. -/
theorem holds (h : f.Packed r t) (past : Nat) :
    ∃ l, l.term = t ∧ f.Holds ⟨r, past⟩ (some l) [] := by
  obtain ⟨l, term, -, retired, held⟩ := h
  refine ⟨l, term, held.root, held.stands.sizes, held.stands.registry, held.stands.fits,
    held.stands.linked, held.stands.detached, held.stands.apart, ?_⟩
  simp [retired]

theorem reregister (h : f.Packed r t) (r' : Registry) :
    Packed { f with registry := r' } r' t := by
  obtain ⟨l, term, order, retired, held⟩ := h
  exact ⟨l, term, order, retired, held.reregister r'⟩

/-- Two packed forests of one term and one registry are the same forest. -/
theorem unique (hf : f.Packed r t) (hg : g.Packed r t) : f = g := by
  obtain ⟨l, term, order, retired, hf⟩ := hf
  obtain ⟨l', term', order', retired', hg⟩ := hg
  have lengths : l.descendants.length = l'.descendants.length := by
    rw [l.length_descendants, l'.length_descendants, term, term']
  have size : f.size = g.size := by
    have hl := congrArg List.length order
    have hl' := congrArg List.length order'
    rw [List.length_reverse, List.length_range] at hl hl'
    omega
  obtain rfl : l = l' := by
    apply Tree.eq_of_descendants (term.trans term'.symm)
    rw [← List.reverse_inj, order, order', size]
  refine hf.eq_of_all hg size (retired.trans retired'.symm) ?_
  intro i hi
  rw [← l.descendants_perm.mem_iff, ← List.mem_reverse, order]
  exact List.mem_range.mpr hi

/-! What is where in a packed forest. -/

theorem mem_nodes (order : l.descendants.reverse = List.range f.size) {i : Nat} :
    i ∈ l.nodes ↔ i < f.size := by
  rw [← l.descendants_perm.mem_iff, ← List.mem_reverse, order, List.mem_range]

theorem root_eq (h : f.Packed r t) : f.root = some 0 := by
  obtain ⟨l, -, order, -, held⟩ := h
  obtain ⟨rest, first⟩ := preorder_cons held.fits_live
  rw [preorder_eq held.fits_live, order] at first
  cases size : f.size with
  | zero => simp [size] at first
  | succ n =>
    rw [size, List.range_succ_eq_map, List.cons.injEq] at first
    rw [held.root, Option.map_some, ← first.1]

theorem preorder_eq_range (h : f.Packed r t) : f.preorder 0 = List.range f.size := by
  have root := h.root_eq
  obtain ⟨l, -, order, -, held⟩ := h
  have top := held.root
  rw [root, Option.map_some, Option.some.injEq] at top
  rw [top, preorder_eq held.fits_live, order]

theorem live (h : f.Packed r t) {i : Nat} (hi : i < f.size) : f.Live i := by
  obtain ⟨l, -, order, -, held⟩ := h
  exact held.live_iff.mpr ((mem_nodes order).mpr hi)

theorem parent_eq_some_iff (h : f.Packed r t) {i p : Nat} :
    f.parent i = some p ↔ i ∈ f.slots p := by
  obtain ⟨l, -, order, -, held⟩ := h
  have fits := held.fits_live
  have linked := held.stands.linked l List.mem_cons_self
  constructor
  · intro above
    have lt : i < f.size := by
      by_contra out
      have none : f.parents[i]? = none :=
        Array.getElem?_eq_none_iff.mpr (held.stands.sizes ▸ Nat.not_lt.mp out)
      simp [parent, none] at above
    obtain ⟨k, s, rfl, rfl⟩ := Tree.exists_plug ((mem_nodes order).mpr lt)
    rw [held.stands.parent_hole] at above
    cases k with
    | nil => cases above
    | cons d k =>
      cases above
      rw [slots_eq (Context.fits_plug.mp fits).2.1]
      cases d <;> simp [Frame.cell, Cell.slots]
  · intro slot
    obtain ⟨c, hc, slot⟩ := exists_cell_of_mem_slots slot
    rw [← Array.getElem?_toList] at hc
    exact parent_of_mem_slots fits linked (fun j hj => (mem_nodes order).mpr hj) hc slot

end Packed

end Forest

end Fluxion
