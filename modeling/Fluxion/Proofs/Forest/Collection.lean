import Fluxion.Forest.Text
import Fluxion.Proofs.Forest.Consistent
import Fluxion.Proofs.Forest.Packed
import Fluxion.Proofs.Forest.Unfolding
import Fluxion.Proofs.Simplification.Preservation
import Fluxion.Typesetting

/-!
# Compaction as garbage collection

What compaction does to any forest whose live graph has no cycle. The live expression stays what
it is and everything else goes, and there is nothing left to do for a second compaction. A node
that was live on several paths is copied for each, and all slots that held it hold the last of
its copies, so that the copies before are not live.
-/

namespace Fluxion

theorem Cell.renumber_renumber {place place' : Nat → Nat} {c : Cell}
    (same : ∀ b ∈ c.slots, place' (place b) = place b) :
    (c.renumber place).renumber place' = c.renumber place := by
  cases c with
  | number x => rfl
  | var key => rfl
  | unary op a => simp [renumber, same a (by simp [slots])]
  | binary op a b => simp [renumber, same a (by simp [slots]), same b (by simp [slots])]

namespace Forest

variable {f : Forest} {l : Tree}

section

variable (fits : l.Fits f.cells)

include fits

/-- The root stands at the first place and nowhere else. -/
theorem placeOf_top : f.placeOf (f.preorder l.top) l.top = 0 := by
  have perm := preorder_perm fits
  have found := getElem?_placeOf (inside_preorder fits) (perm.mem_iff.mpr l.top_mem_nodes)
  obtain ⟨rest, first⟩ := preorder_cons fits
  have under : rest.Perm l.under := by
    rw [first] at perm
    exact (perm.trans (List.perm_append_singleton _ _)).cons_inv
  cases place : f.placeOf (f.preorder l.top) l.top with
  | zero => rfl
  | succ k =>
    rw [place, first, List.getElem?_cons_succ] at found
    have again := under.mem_iff.mp (List.mem_of_getElem? found)
    exact absurd again (top_notMem_under_of_fits fits)

theorem top_renumber_preorder : (l.renumber (f.placeOf (f.preorder l.top))).top = 0 := by
  rw [Tree.top_renumber, placeOf_top fits]

variable (root : f.root = some l.top)

include root

theorem getElem?_compact {k i : Nat} (hk : (f.preorder l.top)[k]? = some i) :
    f.compact.cells[k]? =
      f.cells[i]?.map (Cell.renumber (f.placeOf (f.preorder l.top))) := by
  rw [compact_eq root, getElem?_placedCells (inside_preorder fits), hk]
  rfl

theorem fits_compact {s : Tree} (hs : s.Fits f.cells) (mem : s.top ∈ l.nodes) :
    (s.renumber (f.placeOf (f.preorder l.top))).Fits f.compact.cells := by
  apply hs.renumber
  intro i hi
  have live := mem_nodes_of_reachable fits mem (reachable_of_mem_nodes hs hi)
  rw [compact_eq root]
  exact placedCells_placeOf (inside_preorder fits) ((preorder_perm fits).mem_iff.mpr live)

theorem program_compact : f.compact.program 0 = f.program l.top := by
  rw [← top_renumber_preorder fits, program_eq (fits_compact fits root fits l.top_mem_nodes),
    program_eq fits, Tree.term_renumber]

theorem preorder_compact :
    f.compact.preorder 0 = (f.preorder l.top).map (f.placeOf (f.preorder l.top)) := by
  have moved := preorder_eq (fits_compact fits root fits l.top_mem_nodes)
  rw [top_renumber_preorder fits, Tree.descendants_renumber, ← List.map_reverse] at moved
  rw [moved, preorder_eq fits]

/-- Every copy of a node unfolds to the term of the node. -/
theorem term?_compact {k i : Nat} (hk : (f.preorder l.top)[k]? = some i) :
    f.compact.term? k = f.term? i := by
  have copy := getElem?_compact fits root hk
  have mem := (preorder_perm fits).mem_iff.mp (List.mem_of_getElem? hk)
  obtain ⟨c, s, whole, rfl⟩ := Tree.exists_plug mem
  have hs : s.Fits f.cells := (Context.fits_plug.mp (whole ▸ fits)).1
  rw [hs.cell, Option.map_some] at copy
  -- the slots of the copy hold the last copies of the operands
  have operand {t : Tree} (ht : t.Fits f.cells) (slot : t.top ∈ f.slots s.top) :
      (t.renumber (f.placeOf (f.preorder l.top))).Fits f.compact.cells :=
    fits_compact fits root ht (mem_nodes_of_reachable fits mem (.single slot))
  obtain ⟨u, top, term, hu⟩ : ∃ u : Tree, u.top = k ∧ u.term = s.term ∧
      u.Fits f.compact.cells := by
    cases s with
    | number j x => exact ⟨.number k x, rfl, rfl, copy⟩
    | var j key => exact ⟨.var k key, rfl, rfl, copy⟩
    | unary j op t =>
      refine ⟨.unary k op (t.renumber _), rfl, ?_, ?_, operand hs.2 ?_⟩
      · rw [Tree.term, Tree.term, Tree.term_renumber]
      · rw [copy, Tree.top_renumber]
        rfl
      · simp [slots_eq hs.1, Cell.slots]
    | binary j op t₁ t₂ =>
      refine ⟨.binary k op (t₁.renumber _) (t₂.renumber _), rfl, ?_, ?_, operand hs.2.1 ?_,
        operand hs.2.2 ?_⟩
      · rw [Tree.term, Tree.term, Tree.term_renumber, Tree.term_renumber]
      · rw [copy, Tree.top_renumber, Tree.top_renumber]
        rfl
      · simp [slots_eq hs.1, Cell.slots]
      · simp [slots_eq hs.1, Cell.slots]
  rw [← top, term?_eq hu, term?_eq hs, term]

/-! ### Compacting again -/

theorem inside_compact : ∀ j ∈ f.compact.preorder 0, j < f.compact.size := by
  rw [← top_renumber_preorder fits]
  exact inside_preorder (fits_compact fits root fits l.top_mem_nodes)

/-- What is in its last place stays there. -/
theorem placeOf_placeOf {i : Nat} (hi : i ∈ f.preorder l.top) :
    f.compact.placeOf (f.compact.preorder 0) (f.placeOf (f.preorder l.top) i) =
      f.placeOf (f.preorder l.top) i := by
  have inside := inside_preorder fits
  have found := getElem?_placeOf inside hi
  have inside' := inside_compact fits root
  have here : (f.compact.preorder 0)[f.placeOf (f.preorder l.top) i]? =
      some (f.placeOf (f.preorder l.top) i) := by
    rw [preorder_compact fits root, List.getElem?_map, found, Option.map_some]
  apply Nat.le_antisymm
  · -- what stands at the later place is a copy of the same node
    have later := getElem?_placeOf inside' (List.mem_of_getElem? here)
    rw [preorder_compact fits root, List.getElem?_map, Option.map_eq_some_iff] at later
    obtain ⟨j, hj, same⟩ := later
    have again := getElem?_placeOf inside (List.mem_of_getElem? hj)
    rw [same, found, Option.some.injEq] at again
    rw [← preorder_compact fits root, ← again] at hj
    exact le_placeOf inside hj
  · exact le_placeOf inside' here

theorem placedCells_compact : f.compact.placedCells (f.compact.preorder 0) = f.compact.cells := by
  have inside' := inside_compact fits root
  apply Array.ext_getElem?
  intro k
  rw [getElem?_placedCells inside', preorder_compact fits root, List.getElem?_map]
  cases hk : (f.preorder l.top)[k]? with
  | none =>
    rw [List.getElem?_eq_none_iff, ← size_compact fits root] at hk
    exact (Array.getElem?_eq_none_iff.mpr hk).symm
  | some i =>
    have mem := List.mem_of_getElem? hk
    rw [Option.map_some, Option.bind_some, getElem?_compact fits root hk,
      getElem?_compact fits root (getElem?_placeOf (inside_preorder fits) mem)]
    cases hc : f.cells[i]? with
    | none => rfl
    | some c =>
      rw [Option.map_some, Option.map_some, ← preorder_compact fits root,
        Cell.renumber_renumber]
      intro b hb
      rw [← slots_eq hc] at hb
      exact placeOf_placeOf fits root (mem_preorder_of_slot fits mem hb)

theorem compact_compact : f.compact.compact = f.compact := by
  have cells := placedCells_compact fits root
  rw [compact_eq (root_compact root), cells, compact_eq root]

/-! ### What is read off -/

theorem value_compact [Elementary] : f.compact.value = f.value := by
  have live := fits_compact fits root fits l.top_mem_nodes
  simp only [value, root_compact root, root]
  rw [← top_renumber_preorder fits, live.evaluate_eq, fits.evaluate_eq, Tree.term_renumber,
    registry_compact]

theorem polish_compact : f.compact.polish = f.polish := by
  simp only [polish, root_compact root, root, registry_compact, program_compact fits root]

theorem markup_compact : f.compact.markup = f.markup := by
  simp only [markup, markup?, root_compact root, root, registry_compact,
    program_compact fits root]

end

/-- Compaction collects garbage and does nothing else: the root gets the index 0 and unfolds to
the same term, every copy of a live node unfolds as the node did, and what is read off the live
expression is the same. If the walk comes to no node twice, then all cells are live, in preorder
and with exactly the parents that the slots induce. -/
theorem compact_collects [Elementary] (f : Forest) (r : Nat) (root : f.root = some r)
    (acyclic : f.Acyclic) :
    (f.compact.root = some 0 ∧ (∃ t, f.term? r = some t ∧ f.compact.term? 0 = some t) ∧
      (∀ k i, (f.preorder r)[k]? = some i → f.compact.term? k = f.term? i) ∧
      f.compact.size = f.liveSize ∧ f.compact.retired = #[] ∧
      f.compact.registry = f.registry) ∧
    (f.compact.value = f.value ∧ f.compact.polish = f.polish ∧ f.compact.markup = f.markup) ∧
    f.compact.compact = f.compact ∧
    ((f.preorder r).Nodup → f.compact.preorder 0 = List.range f.compact.size ∧
      (∀ i < f.compact.size, f.compact.Live i) ∧
      f.compact.parents.size = f.compact.size ∧
      ∀ i p, f.compact.parent i = some p ↔ i ∈ f.compact.slots p) := by
  obtain ⟨l, rfl, fits⟩ := acyclic.exists_tree (i := r) ⟨r, root, .refl⟩
  have first : (f.preorder l.top)[0]? = some l.top := by
    obtain ⟨rest, order⟩ := preorder_cons fits
    rw [order]
    rfl
  refine ⟨⟨root_compact root, ?_, ?_, ?_, retired_compact f, registry_compact f⟩,
    ⟨value_compact fits root, polish_compact fits root, markup_compact fits root⟩,
    compact_compact fits root, ?_⟩
  · refine ⟨l.term, term?_eq fits, ?_⟩
    rw [term?_compact fits root first, term?_eq fits]
  · intro k i hk
    exact term?_compact fits root hk
  · rw [size_compact fits root, preorder_eq fits, List.length_reverse, liveSize_eq fits root,
      l.length_descendants]
  · intro nodup
    have packed := compact_packed fits root ((preorder_perm fits).nodup_iff.mp nodup)
    exact ⟨packed.preorder_eq_range, fun i hi => packed.live hi, sizes_compact f, fun i p =>
      packed.parent_eq_some_iff⟩

/-- The forest of `(x - 1) * (x - 1)`, in which the difference is one node, after `x - 1` has
taken the place of a quotient. -/
def sharedFactor : Forest where
  cells := #[.var (.ofSymbol 'x'), .number 1, .binary .sub 0 1, .number 2, .binary .div 3 1,
    .binary .mul 2 2]
  parents := #[some 2, some 2, some 5, some 4, none, none]
  root := some 5
  retired := #[4]
  registry := ⟨[⟨'x', some 3⟩]⟩

/-- The difference is copied, and the product holds its last copy twice. On its own, the
difference is a tree. -/
theorem compact_sharedFactor : sharedFactor.Acyclic ∧
    sharedFactor.compact.cells = #[.binary .mul 4 4, .binary .sub 5 6, .var (.ofSymbol 'x'),
      .number 1, .binary .sub 5 6, .var (.ofSymbol 'x'), .number 1] ∧
    sharedFactor.compact.term? 1 = sharedFactor.term? 2 ∧
    sharedFactor.compact.term? 4 = sharedFactor.term? 2 ∧
    sharedFactor.compact.compact = sharedFactor.compact ∧
    (sharedFactor.preorder 2).Nodup ∧
    ∀ i < 3, (Forest.compact { sharedFactor with root := some 2 }).Live i := by
  have below : ∀ i < sharedFactor.size, ∀ j ∈ sharedFactor.slots i, j < i := by decide
  have acyclic : sharedFactor.Acyclic := acyclic_of_lt below (by rintro r ⟨⟩; decide)
  have part : Acyclic { sharedFactor with root := some 2 } :=
    acyclic_of_lt below (by rintro r ⟨⟩; decide)
  have nodup : (sharedFactor.preorder 2).Nodup := by decide
  obtain ⟨⟨-, -, copies, -⟩, -, again, -⟩ := compact_collects sharedFactor 5 rfl acyclic
  obtain ⟨-, -, -, tree⟩ := compact_collects { sharedFactor with root := some 2 } 2 rfl part
  refine ⟨acyclic, by decide, copies 1 2 ?_, copies 4 2 ?_, again, nodup, (tree nodup).2.1⟩
  · decide
  · decide

end Forest

end Fluxion
