import Fluxion.Forest.Compact
import Fluxion.Proofs.Forest.Shape
import Fluxion.Proofs.Forest.Surgery
import Fluxion.Proofs.Forest.Traversal

/-!
# Compaction of a live tree

Compaction takes every node of the live tree to its place in the preorder. The tree keeps
its term, and the parents that the slots induce are those of the tree.
-/

namespace Fluxion

namespace Forest

/-! ### Places -/

theorem place_foldl_of_notMem {order : List Nat} {place : Array Nat} {n i : Nat}
    (h : i ∉ order) :
    (order.foldl (fun (place, n) i => (place.setIfInBounds i n, n + 1)) (place, n)).1[i]? =
      place[i]? := by
  induction order generalizing place n with
  | nil => rfl
  | cons j order ih =>
    rw [List.mem_cons, not_or] at h
    rw [List.foldl_cons, ih h.2, Array.getElem?_setIfInBounds_ne (Ne.symm h.1)]

theorem place_foldl_getElem {order : List Nat} {place : Array Nat} (n : Nat)
    (nodup : order.Nodup) (inside : ∀ i ∈ order, i < place.size) {j : Nat}
    (h : j < order.length) :
    (order.foldl (fun (place, n) i => (place.setIfInBounds i n, n + 1)) (place, n)).1[order[j]]? =
      some (n + j) := by
  induction order generalizing place n j with
  | nil => cases h
  | cons i order ih =>
    rw [List.nodup_cons] at nodup
    rw [List.foldl_cons]
    cases j with
    | zero =>
      rw [List.getElem_cons_zero, place_foldl_of_notMem nodup.1,
        Array.getElem?_setIfInBounds_self_of_lt (inside i List.mem_cons_self)]
      rfl
    | succ j =>
      rw [List.getElem_cons_succ, ih (n + 1) nodup.2 _ (Nat.lt_of_succ_lt_succ h)]
      · rw [Nat.add_right_comm, Nat.add_assoc]
      · intro k hk
        rw [Array.size_setIfInBounds]
        exact inside k (List.mem_cons_of_mem i hk)

/-- A cell that occurs in the order is at its last place there. -/
theorem place_foldl_of_mem {order : List Nat} {place : Array Nat} (n : Nat)
    (inside : ∀ i ∈ order, i < place.size) {i : Nat} (h : i ∈ order) :
    ∃ j, order[j]? = some i ∧ (∀ k, order[k]? = some i → k ≤ j) ∧
      (order.foldl (fun (place, n) i => (place.setIfInBounds i n, n + 1)) (place, n)).1[i]? =
        some (n + j) := by
  induction order generalizing place n with
  | nil => cases h
  | cons k order ih =>
    rw [List.foldl_cons]
    by_cases later : i ∈ order
    · have inside' : ∀ a ∈ order, a < (place.setIfInBounds k n).size := by
        intro a ha
        rw [Array.size_setIfInBounds]
        exact inside a (List.mem_cons_of_mem k ha)
      obtain ⟨j, hj, last, placed⟩ := ih (n + 1) inside' later
      refine ⟨j + 1, hj, ?_, placed.trans ?_⟩
      · rintro (_ | k) hk
        · exact Nat.zero_le _
        · exact Nat.succ_le_succ (last k hk)
      · rw [Nat.add_right_comm, Nat.add_assoc]
    · obtain rfl := (List.mem_cons.mp h).resolve_right later
      refine ⟨0, rfl, ?_, ?_⟩
      · rintro (_ | k) hk
        · exact Nat.le_refl 0
        · rw [List.getElem?_cons_succ] at hk
          exact absurd (List.mem_of_getElem? hk) later
      · rw [place_foldl_of_notMem later,
          Array.getElem?_setIfInBounds_self_of_lt (inside i List.mem_cons_self)]
        rfl

theorem places_getElem {order : List Nat} {size : Nat} (nodup : order.Nodup)
    (inside : ∀ i ∈ order, i < size) {j : Nat} (h : j < order.length) :
    (places size order)[order[j]]? = some j := by
  rw [places, place_foldl_getElem 0 nodup _ h, Nat.zero_add]
  simpa using inside

end Forest

/-! ### Renumbered trees -/

namespace Tree

variable {cells cells' : Array Cell} {t : Tree} {place : Nat → Nat}

def renumber (place : Nat → Nat) : Tree → Tree
  | number i x => number (place i) x
  | var i key => var (place i) key
  | unary i op t => unary (place i) op (t.renumber place)
  | binary i op s t => binary (place i) op (s.renumber place) (t.renumber place)

theorem top_renumber (place : Nat → Nat) (t : Tree) : (t.renumber place).top = place t.top := by
  cases t <;> rfl

theorem term_renumber (place : Nat → Nat) (t : Tree) : (t.renumber place).term = t.term := by
  induction t with
  | number i x => rfl
  | var i key => rfl
  | unary i op t ih => rw [renumber, term, ih, term]
  | binary i op s t ihs iht => rw [renumber, term, ihs, iht, term]

theorem nodes_renumber (place : Nat → Nat) (t : Tree) :
    (t.renumber place).nodes = t.nodes.map place := by
  induction t with
  | number i x => rfl
  | var i key => rfl
  | unary i op t ih => simp [renumber, ih]
  | binary i op s t ihs iht => simp [renumber, ihs, iht]

theorem Fits.renumber (h : t.Fits cells)
    (moved : ∀ i ∈ t.nodes, cells'[place i]? = cells[i]?.map (Cell.renumber place)) :
    (t.renumber place).Fits cells' := by
  induction t with
  | number i x => exact (moved i (by simp)).trans (congrArg (Option.map (Cell.renumber place)) h)
  | var i key => exact (moved i (by simp)).trans (congrArg (Option.map (Cell.renumber place)) h)
  | unary i op t ih =>
    constructor
    · rw [top_renumber, moved i (by simp), h.1]
      rfl
    · apply ih h.2
      intro j hj
      exact moved j (by simp [hj])
  | binary i op s t ihs iht =>
    refine ⟨?_, ihs h.2.1 ?_, iht h.2.2 ?_⟩
    · rw [top_renumber, top_renumber, moved i (by simp), h.1]
      rfl
    · intro j hj
      exact moved j (by simp [hj])
    · intro j hj
      exact moved j (by simp [hj])

/-- The node in whose slot the tree has a node. -/
def above : Tree → Nat → Option Nat
  | number _ _, _ | var _ _, _ => none
  | unary i _ t, j => if j = t.top then some i else t.above j
  | binary i _ s t, j =>
    if j = s.top ∨ j = t.top then some i
    else if j ∈ s.nodes then s.above j
    else t.above j

theorem above_of_notMem_under {j : Nat} (h : j ∉ t.under) : t.above j = none := by
  induction t with
  | number i x => rfl
  | var i key => rfl
  | unary i op t ih =>
    rw [under_unary, mem_nodes, not_or] at h
    rw [above, if_neg h.2, ih h.1]
  | binary i op s t ihs iht =>
    rw [under_binary, List.mem_append, mem_nodes, mem_nodes, not_or, not_or, not_or] at h
    obtain ⟨⟨offLeft, ne⟩, offRight, ne'⟩ := h
    rw [above, if_neg (not_or.mpr ⟨ne, ne'⟩), ihs offLeft, iht offRight, ite_self]

theorem linked_above (nodup : t.nodes.Nodup) : t.Linked t.above := by
  induction t with
  | number i x => trivial
  | var i key => trivial
  | unary i op t ih =>
    obtain ⟨nodup, -⟩ := nodup_unary nodup
    refine ⟨if_pos rfl, (ih nodup).congr ?_⟩
    intro j hj
    have ne : j ≠ t.top := fun he => top_notMem_under nodup (he ▸ hj)
    rw [above, if_neg ne]
  | binary i op s t ihs iht =>
    obtain ⟨nodupLeft, nodupRight, apart, -, -⟩ := nodup_binary nodup
    refine ⟨if_pos (Or.inl rfl), if_pos (Or.inr rfl), (ihs nodupLeft).congr ?_,
      (iht nodupRight).congr ?_⟩
    · intro j hj
      have left : j ∈ s.nodes := mem_nodes.mpr (Or.inl hj)
      have ne : j ≠ s.top := fun he => top_notMem_under nodupLeft (he ▸ hj)
      have ne' : j ≠ t.top := fun he => apart j left (he ▸ t.top_mem_nodes)
      rw [above, if_neg (not_or.mpr ⟨ne, ne'⟩), if_pos left]
    · intro j hj
      have right : j ∈ t.nodes := mem_nodes.mpr (Or.inl hj)
      have off : j ∉ s.nodes := fun hs => apart j hs right
      have ne : j ≠ s.top := fun he => off (he ▸ s.top_mem_nodes)
      have ne' : j ≠ t.top := fun he => top_notMem_under nodupRight (he ▸ hj)
      rw [above, if_neg (not_or.mpr ⟨ne, ne'⟩), if_neg off]

end Tree

namespace Forest

/-! ### Induced parents -/

/-- What a cell does to the parents of its slots. -/
def induce (parents : Array (Option Nat)) (i : Nat) : Cell → Array (Option Nat)
  | .unary _ a => parents.setIfInBounds a (some i)
  | .binary _ a b => (parents.setIfInBounds a (some i)).setIfInBounds b (some i)
  | _ => parents

theorem inducedParents_eq (cells : Array Cell) : inducedParents cells =
    (cells.toList.foldl (fun (parents, i) c => (induce parents i c, i + 1))
      (Array.replicate cells.size none, 0)).1 := by
  rw [inducedParents, ← Array.foldl_toList]
  rfl

theorem size_induce (parents : Array (Option Nat)) (i : Nat) (c : Cell) :
    (induce parents i c).size = parents.size := by
  cases c <;> simp [induce]

theorem induce_of_notMem {parents : Array (Option Nat)} {i a : Nat} {c : Cell}
    (h : a ∉ c.slots) : (induce parents i c)[a]? = parents[a]? := by
  cases c with
  | number x => rfl
  | var key => rfl
  | unary op b =>
    have ne : b ≠ a := fun he => h (by simp [Cell.slots, he])
    rw [induce, Array.getElem?_setIfInBounds_ne ne]
  | binary op b c =>
    have ne : b ≠ a := fun he => h (by simp [Cell.slots, he])
    have ne' : c ≠ a := fun he => h (by simp [Cell.slots, he])
    rw [induce, Array.getElem?_setIfInBounds_ne ne', Array.getElem?_setIfInBounds_ne ne]

theorem induce_of_mem {parents : Array (Option Nat)} {i a : Nat} {c : Cell} (h : a ∈ c.slots)
    (inside : a < parents.size) : (induce parents i c)[a]? = some (some i) := by
  cases c with
  | number x => cases h
  | var key => cases h
  | unary op b =>
    rw [Cell.slots, List.mem_singleton] at h
    subst h
    rw [induce, Array.getElem?_setIfInBounds_self_of_lt inside]
  | binary op b c =>
    rw [Cell.slots, List.mem_cons, List.mem_singleton] at h
    by_cases hc : c = a
    · subst hc
      rw [induce, Array.getElem?_setIfInBounds_self_of_lt (by simpa using inside)]
    · rcases h with rfl | rfl
      · rw [induce, Array.getElem?_setIfInBounds_ne hc,
          Array.getElem?_setIfInBounds_self_of_lt inside]
      · exact absurd rfl hc

/-- A cell that fills no slot has no parent induced. -/
theorem induce_foldl_of_notMem {cs : List Cell} {parents : Array (Option Nat)} {n a : Nat}
    (h : ∀ c ∈ cs, a ∉ c.slots) :
    (cs.foldl (fun (parents, i) c => (induce parents i c, i + 1)) (parents, n)).1[a]? =
      parents[a]? := by
  induction cs generalizing parents n with
  | nil => rfl
  | cons c cs ih =>
    rw [List.foldl_cons, ih fun d hd => h d (List.mem_cons_of_mem c hd)]
    exact induce_of_notMem (h c List.mem_cons_self)

/-- A cell that fills a slot of a single cell has that cell for its parent. -/
theorem induce_foldl_of_mem {cs : List Cell} {parents : Array (Option Nat)} (n : Nat) {a j : Nat}
    (inside : a < parents.size) {c : Cell} (hj : cs[j]? = some c) (h : a ∈ c.slots)
    (only : ∀ i d, cs[i]? = some d → a ∈ d.slots → i = j) :
    (cs.foldl (fun (parents, i) c => (induce parents i c, i + 1)) (parents, n)).1[a]? =
      some (some (n + j)) := by
  induction cs generalizing parents n j with
  | nil => cases hj
  | cons d cs ih =>
    rw [List.foldl_cons]
    cases j with
    | zero =>
      cases hj
      rw [induce_foldl_of_notMem]
      · exact induce_of_mem h inside
      · intro e he ha
        obtain ⟨i, hi⟩ := List.getElem?_of_mem he
        exact absurd (only (i + 1) e hi ha) (Nat.succ_ne_zero i)
    | succ j =>
      rw [ih (n + 1) (by rwa [size_induce]) hj fun i e hi ha =>
        Nat.succ.inj (only (i + 1) e hi ha)]
      rw [Nat.add_right_comm, Nat.add_assoc]

/-- Only a cell with a slot for it is induced as the parent of a cell. -/
theorem mem_slots_of_induce_foldl {cs : List Cell} {parents : Array (Option Nat)} {n a p : Nat}
    (h : (cs.foldl (fun (parents, i) c => (induce parents i c, i + 1)) (parents, n)).1[a]? =
      some (some p)) :
    parents[a]? = some (some p) ∨ ∃ j c, p = n + j ∧ cs[j]? = some c ∧ a ∈ c.slots := by
  induction cs generalizing parents n with
  | nil => exact Or.inl h
  | cons c cs ih =>
    rw [List.foldl_cons] at h
    rcases ih h with before | ⟨j, d, place, hd, slot⟩
    · by_cases slot : a ∈ c.slots
      · obtain ⟨lt, -⟩ := Array.getElem?_eq_some_iff.mp before
        rw [induce_of_mem slot (by rwa [size_induce] at lt)] at before
        cases before
        exact Or.inr ⟨0, c, rfl, rfl, slot⟩
      · rw [induce_of_notMem slot] at before
        exact Or.inl before
    · exact Or.inr ⟨j + 1, d, by omega, hd, slot⟩

theorem size_induce_foldl (cs : List Cell) (parents : Array (Option Nat)) (n : Nat) :
    (cs.foldl (fun (parents, i) c => (induce parents i c, i + 1)) (parents, n)).1.size =
      parents.size := by
  induction cs generalizing parents n with
  | nil => rfl
  | cons c cs ih => rw [List.foldl_cons, ih, size_induce]

theorem size_inducedParents (cells : Array Cell) : (inducedParents cells).size = cells.size := by
  rw [inducedParents_eq, size_induce_foldl, Array.size_replicate]

theorem mem_slots_of_inducedParents {cells : Array Cell} {a p : Nat}
    (h : (inducedParents cells)[a]?.join = some p) :
    ∃ c, cells[p]? = some c ∧ a ∈ c.slots := by
  rw [inducedParents_eq, Option.join_eq_some_iff] at h
  rcases mem_slots_of_induce_foldl h with none | ⟨j, c, place, hc, slot⟩
  · rw [Array.getElem?_replicate] at none
    split at none <;> cases none
  · refine ⟨c, ?_, slot⟩
    rwa [place, Nat.zero_add, ← Array.getElem?_toList]

section

variable {cells : Array Cell} {t : Tree} {parent : Nat → Option Nat}

/-- Whichever cell has a slot for `a`, it is the parent of `a` in the tree. -/
theorem parent_of_mem_slots (fits : t.Fits cells) (linked : t.Linked parent)
    (all : ∀ i < cells.size, i ∈ t.nodes) {i a : Nat} {c : Cell}
    (hi : cells.toList[i]? = some c) (ha : a ∈ c.slots) : parent a = some i := by
  rw [Array.getElem?_toList] at hi
  obtain ⟨lt, -⟩ := Array.getElem?_eq_some_iff.mp hi
  exact fits.parent_eq linked (all i lt) hi ha

theorem inducedParents_getElem (fits : t.Fits cells) (linked : t.Linked parent)
    (detached : parent t.top = none) (all : ∀ i < cells.size, i ∈ t.nodes) {a : Nat}
    (ha : a ∈ t.nodes) : (inducedParents cells)[a]?.join = parent a := by
  have lt := fits.lt a ha
  have held {i : Nat} {c : Cell} (hi : cells.toList[i]? = some c) (h : a ∈ c.slots) :
      parent a = some i := parent_of_mem_slots fits linked all hi h
  obtain ⟨k, s, rfl, rfl⟩ := Tree.exists_plug ha
  rw [inducedParents_eq]
  cases k with
  | nil =>
    have detached : parent s.top = none := detached
    have unheld : ∀ c ∈ cells.toList, s.top ∉ c.slots := by
      intro c hc hs
      obtain ⟨i, hi⟩ := List.getElem?_of_mem hc
      have above := held hi hs
      rw [detached] at above
      cases above
    rw [induce_foldl_of_notMem unheld, detached, Array.getElem?_replicate, if_pos lt]
    rfl
  | cons d k =>
    have hc := (Context.fits_plug.mp fits).2.1
    have hp := (Context.linked_plug.mp linked).2.1
    have mem : s.top ∈ (d.cell s.top).slots := by
      cases d <;> simp [Frame.cell, Cell.slots]
    rw [← Array.getElem?_toList] at hc
    have only : ∀ i e, cells.toList[i]? = some e → s.top ∈ e.slots → i = d.node := by
      intro i e hi he
      have above := held hi he
      rw [hp, Option.some.injEq] at above
      exact above.symm
    rw [induce_foldl_of_mem 0 (by simpa using lt) hc mem only, Nat.zero_add, hp]
    rfl

/-- The parents that the cells of a tree induce are those of the tree. -/
theorem linked_inducedParents (fits : t.Fits cells) (linked : t.Linked parent)
    (detached : parent t.top = none) (all : ∀ i < cells.size, i ∈ t.nodes) :
    t.Linked (fun i => (inducedParents cells)[i]?.join) ∧
      (inducedParents cells)[t.top]?.join = none := by
  constructor
  · apply linked.congr
    intro i hi
    exact inducedParents_getElem fits linked detached all (Tree.mem_nodes.mpr (Or.inl hi))
  · rw [inducedParents_getElem fits linked detached all t.top_mem_nodes, detached]

end

/-! ### The compacted forest -/

section

variable {α β : Type} {F : α → Option β} {xs : List α}

theorem length_filterMap_of_isSome (h : ∀ x ∈ xs, (F x).isSome) :
    (xs.filterMap F).length = xs.length := by
  rw [List.length_filterMap_eq_countP, List.countP_eq_length]
  exact h

theorem getElem?_filterMap_of_isSome (h : ∀ x ∈ xs, (F x).isSome) (j : Nat) :
    (xs.filterMap F)[j]? = xs[j]?.bind F := by
  induction xs generalizing j with
  | nil => rfl
  | cons x xs ih =>
    obtain ⟨y, hy⟩ := Option.isSome_iff_exists.mp (h x List.mem_cons_self)
    rw [List.filterMap_cons_some hy]
    cases j with
    | zero => simp [hy]
    | succ j =>
      simp only [List.getElem?_cons_succ]
      exact ih (fun z hz => h z (List.mem_cons_of_mem x hz)) j

end

theorem preorder_cons {f : Forest} {t : Tree} (h : t.Fits f.cells) :
    ∃ order, f.preorder t.top = t.top :: order := by
  rw [preorder_eq h]
  cases t with
  | number i x => exact ⟨[], rfl⟩
  | var i key => exact ⟨[], rfl⟩
  | unary i op t => exact ⟨t.descendants.reverse, by simp [Tree.descendants]⟩
  | binary i op s t =>
    exact ⟨s.descendants.reverse ++ t.descendants.reverse, by simp [Tree.descendants]⟩

theorem preorder_perm {f : Forest} {t : Tree} (h : t.Fits f.cells) :
    (f.preorder t.top).Perm t.nodes := by
  rw [preorder_eq h]
  exact (List.reverse_perm _).trans t.descendants_perm

/-- The new index of a cell. -/
def placeOf (f : Forest) (order : List Nat) (i : Nat) : Nat := (places f.size order)[i]?.getD 0

/-- The cells of `order`, each at its place. -/
def placedCells (f : Forest) (order : List Nat) : Array Cell :=
  (order.filterMap fun i => f.cells[i]?.map (Cell.renumber (f.placeOf order))).toArray

theorem compact_eq {f : Forest} {r : Nat} (root : f.root = some r) : f.compact =
    { cells := f.placedCells (f.preorder r)
      parents := inducedParents (f.placedCells (f.preorder r))
      root := some 0
      registry := f.registry } := by
  simp only [compact, root]
  rfl

theorem compact_of_rootless {f : Forest} (root : f.root = none) :
    f.compact = { registry := f.registry } := by
  simp only [compact, root]

theorem root_compact {f : Forest} {r : Nat} (root : f.root = some r) :
    f.compact.root = some 0 := by
  rw [compact_eq root]

theorem registry_compact (f : Forest) : f.compact.registry = f.registry := by
  unfold compact
  split <;> rfl

theorem retired_compact (f : Forest) : f.compact.retired = #[] := by
  unfold compact
  split <;> rfl

theorem sizes_compact (f : Forest) : f.compact.parents.size = f.compact.size := by
  unfold compact
  split
  · rfl
  · exact size_inducedParents _

section

variable {f : Forest} {order : List Nat}

theorem placeOf_getElem (nodup : order.Nodup) (inside : ∀ i ∈ order, i < f.size) {j : Nat}
    (h : j < order.length) : f.placeOf order order[j] = j := by
  rw [placeOf, places_getElem nodup inside h]
  rfl

theorem map_placeOf (nodup : order.Nodup) (inside : ∀ i ∈ order, i < f.size) :
    order.map (f.placeOf order) = List.range order.length := by
  refine List.ext_getElem (by simp) fun j hj _ => ?_
  rw [List.length_map] at hj
  rw [List.getElem_map, placeOf_getElem nodup inside hj, List.getElem_range]

/-- The new index of a cell is its last place in the order. -/
theorem placeOf_last (inside : ∀ i ∈ order, i < f.size) {i : Nat} (h : i ∈ order) :
    order[f.placeOf order i]? = some i ∧ ∀ k, order[k]? = some i → k ≤ f.placeOf order i := by
  have inside : ∀ i ∈ order, i < (Array.replicate f.size 0).size := by
    simpa using inside
  obtain ⟨j, hj, last, place⟩ := place_foldl_of_mem 0 inside h
  rw [placeOf, places, place, Option.getD_some, Nat.zero_add]
  exact ⟨hj, last⟩

theorem getElem?_placeOf (inside : ∀ i ∈ order, i < f.size) {i : Nat} (h : i ∈ order) :
    order[f.placeOf order i]? = some i :=
  (placeOf_last inside h).1

theorem le_placeOf (inside : ∀ i ∈ order, i < f.size) {i k : Nat} (h : order[k]? = some i) :
    k ≤ f.placeOf order i :=
  (placeOf_last inside (List.mem_of_getElem? h)).2 k h

theorem isSome_of_inside (inside : ∀ i ∈ order, i < f.size) :
    ∀ i ∈ order, (f.cells[i]?.map (Cell.renumber (f.placeOf order))).isSome := by
  intro i hi
  have lt : i < f.cells.size := inside i hi
  simp [lt]

theorem size_placedCells (inside : ∀ i ∈ order, i < f.size) :
    (f.placedCells order).size = order.length :=
  length_filterMap_of_isSome (isSome_of_inside inside)

theorem getElem?_placedCells (inside : ∀ i ∈ order, i < f.size) (j : Nat) :
    (f.placedCells order)[j]? =
      order[j]?.bind fun i => f.cells[i]?.map (Cell.renumber (f.placeOf order)) := by
  rw [placedCells, List.getElem?_toArray, getElem?_filterMap_of_isSome (isSome_of_inside inside)]

theorem placedCells_placeOf (inside : ∀ i ∈ order, i < f.size) {i : Nat} (h : i ∈ order) :
    (f.placedCells order)[f.placeOf order i]? =
      f.cells[i]?.map (Cell.renumber (f.placeOf order)) := by
  rw [getElem?_placedCells inside, getElem?_placeOf inside h]
  rfl

variable {l : Tree}

theorem inside_of_perm (fits : l.Fits f.cells) (perm : order.Perm l.nodes) :
    ∀ i ∈ order, i < f.size := by
  intro i hi
  exact fits.lt i (perm.mem_iff.mp hi)

theorem fits_placedCells (fits : l.Fits f.cells) (perm : order.Perm l.nodes) :
    (l.renumber (f.placeOf order)).Fits (f.placedCells order) := by
  apply fits.renumber
  intro i hi
  exact placedCells_placeOf (inside_of_perm fits perm) (perm.mem_iff.mpr hi)

theorem nodes_placed (fits : l.Fits f.cells) (nodup : order.Nodup) (perm : order.Perm l.nodes) :
    (l.renumber (f.placeOf order)).nodes.Perm (List.range order.length) := by
  rw [Tree.nodes_renumber, ← map_placeOf nodup (inside_of_perm fits perm)]
  exact perm.symm.map _

theorem linked_placed (fits : l.Fits f.cells) (nodup : order.Nodup) (perm : order.Perm l.nodes) :
    (l.renumber (f.placeOf order)).Linked
        (fun i => (inducedParents (f.placedCells order))[i]?.join) ∧
      (inducedParents (f.placedCells order))[(l.renumber (f.placeOf order)).top]?.join = none := by
  have nodes := nodes_placed fits nodup perm
  have nodup' := nodes.nodup_iff.mpr List.nodup_range
  apply linked_inducedParents (fits_placedCells fits perm) (Tree.linked_above nodup')
    (Tree.above_of_notMem_under (Tree.top_notMem_under nodup'))
  intro i hi
  rw [nodes.mem_iff, List.mem_range, ← size_placedCells (inside_of_perm fits perm)]
  exact hi

/-! ### The preorder of the live expression -/

theorem inside_preorder (fits : l.Fits f.cells) : ∀ i ∈ f.preorder l.top, i < f.size :=
  inside_of_perm fits (preorder_perm fits)

/-- An operand of a node in the order is in the order as well. -/
theorem mem_preorder_of_slot (fits : l.Fits f.cells) {i b : Nat} (hi : i ∈ f.preorder l.top)
    (slot : b ∈ f.slots i) : b ∈ f.preorder l.top := by
  have perm := preorder_perm fits
  rw [perm.mem_iff] at hi ⊢
  exact mem_nodes_of_reachable fits hi (.single slot)

theorem size_compact (fits : l.Fits f.cells) (root : f.root = some l.top) :
    f.compact.size = (f.preorder l.top).length := by
  rw [compact_eq root]
  exact size_placedCells (inside_preorder fits)

end

/-- Compaction keeps a tree, renumbered, and forgets everything else. The parents that were
recorded before do not matter. -/
theorem compact_renumber {f : Forest} {l : Tree} (fits : l.Fits f.cells)
    (root : f.root = some l.top) (nodup : l.nodes.Nodup) (past : Nat) :
    f.compact.Holds ⟨f.registry, past⟩ (some (l.renumber (f.placeOf (f.preorder l.top)))) [] := by
  obtain ⟨rest, cons⟩ := preorder_cons fits
  have perm := preorder_perm fits
  have nodup : (f.preorder l.top).Nodup := perm.nodup_iff.mpr nodup
  rw [cons] at perm nodup ⊢
  have top : f.placeOf (l.top :: rest) l.top = 0 :=
    placeOf_getElem nodup (inside_of_perm fits perm) (j := 0) (Nat.zero_lt_succ _)
  obtain ⟨links, free⟩ := linked_placed fits nodup perm
  have nodes := nodes_placed fits nodup perm
  rw [compact_eq root, cons]
  refine ⟨?_, size_inducedParents _, rfl, ?_, ?_, ?_, ?_, ?_⟩
  · rw [Option.map_some, Tree.top_renumber, top]
  · simpa using fits_placedCells fits perm
  · rintro t (_ | ⟨_, ⟨⟩⟩)
    exact links
  · rintro t (_ | ⟨_, ⟨⟩⟩)
    exact free
  · simpa using nodes.nodup_iff.mpr List.nodup_range
  · simp

/-- Compaction keeps the term of the live tree. -/
theorem Holds.compact {f : Forest} {m : Mark} {l : Tree} {ts : List Tree}
    (h : f.Holds m (some l) ts) (past : Nat) :
    ∃ l', l'.term = l.term ∧ f.compact.Holds ⟨m.registry, past⟩ (some l') [] :=
  ⟨_, l.term_renumber _,
    h.stands.registry ▸ compact_renumber h.fits_live h.root h.stands.nodup_head past⟩

end Forest

end Fluxion
