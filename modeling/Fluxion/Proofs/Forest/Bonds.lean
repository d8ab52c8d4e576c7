import Fluxion.Proofs.Forest.Acyclic
import Fluxion.Proofs.Forest.Compaction

/-!
# Slots and recorded parents

The slots lead down and the recorded parents lead up, and the two are kept apart: a node
keeps its operands if each of them fills one of its slots and records it as its parent. In a
bonded forest every recorded parent has a slot for its child, and the nodes that do not keep
their operands are listed. The live expression is a tree exactly as long as none of these is
live.
-/

namespace Fluxion

namespace Forest

/-- Every operand fills one slot of the node and has the node for its parent. -/
def Keeps (f : Forest) (i : Nat) : Prop :=
  ∀ c ∈ f.slots i, f.parent c = some i ∧ (f.slots i).count c = 1

/-- Every parent has a slot for its child, and all nodes but the ones listed keep their
operands. -/
structure Bonded (f : Forest) (spent : List Nat) : Prop where
  sizes : f.parents.size = f.cells.size
  slots_lt : ∀ i, ∀ c ∈ f.slots i, c < f.size
  root_lt : ∀ r, f.root = some r → r < f.size
  root_detached : ∀ r, f.root = some r → f.parent r = none
  mem_slots : ∀ c p, f.parent c = some p → c ∈ f.slots p
  keeps_iff : ∀ i, f.Keeps i ↔ i ∉ spent

/-- One step up. -/
def Up (f : Forest) (c p : Nat) : Prop := f.parent c = some p

variable {f : Forest} {m : Mark} {l : Tree} {ts : List Tree} {spent : List Nat} {i j a b r : Nat}

/-! ### A live tree keeps its operands -/

theorem Holds.keeps (h : f.Holds m (some l) ts) (hi : i ∈ l.nodes) : f.Keeps i := by
  intro c hc
  obtain ⟨k, s, rfl, rfl⟩ := Tree.exists_plug hi
  have fits := Context.fits_plug.mp h.fits_live
  rw [slots_eq fits.1.cell] at hc
  obtain ⟨d, n, rfl, rfl⟩ := Tree.exists_fill_of_mem_slots hc
  have inner : f.Stands m (Context.plug (d :: k) n :: ts) := h.stands
  have node : (d.fill n).top = d.node := by cases d <;> rfl
  have cell := (Context.fits_plug.mp (inner.fits _ List.mem_cons_self)).2.1
  rw [node]
  constructor
  · exact inner.parent_hole
  · apply count_slots cell
    intro side
    exact inner.top_notMem_context (by simp [Context.nodes, side])

theorem TreeShaped.keeps (h : f.TreeShaped) (live : f.Live i) : f.Keeps i := by
  obtain ⟨l?, held⟩ := h.exists_holds
  cases l? with
  | none =>
    obtain ⟨r, root, -⟩ := live
    have rootless := held.root
    rw [root] at rootless
    cases rootless
  | some l => exact held.keeps (held.live_iff.mp live)

/-! ### Up from a live node -/

theorem up_rightUnique : Relator.RightUnique f.Up := by
  intro c p q hp hq
  rw [Up] at hp hq
  rw [hp, Option.some.injEq] at hq
  exact hq

section

variable (keeps : ∀ i, f.Live i → f.Keeps i)

include keeps

theorem up_of_path (live : f.Live i)
    (path : Relation.ReflTransGen (fun a b => b ∈ f.slots a) i j) :
    Relation.ReflTransGen f.Up j i := by
  induction path with
  | refl => exact .refl
  | @tail b c path step ih =>
    have above : f.Live b := by
      obtain ⟨r, root, down⟩ := live
      exact ⟨r, root, down.trans path⟩
    have up : f.parent c = some b := ((keeps b above) c step).1
    exact .head up ih

/-- Above the root there is nothing, so no way up leads back. -/
theorem not_up_self (detached : ∀ r, f.root = some r → f.parent r = none) (live : f.Live i) :
    ¬ Relation.TransGen f.Up i i := by
  obtain ⟨r, root, path⟩ := live
  have up : Relation.ReflTransGen f.Up i r := up_of_path keeps ⟨r, root, .refl⟩ path
  clear path
  induction up using Relation.ReflTransGen.head_induction_on with
  | refl =>
    intro cycle
    obtain ⟨p, step, -⟩ := Relation.TransGen.head'_iff.mp cycle
    have none := detached r root
    rw [Up, none] at step
    cases step
  | @head i j step _ ih =>
    intro cycle
    obtain ⟨p, first, back⟩ := Relation.TransGen.head'_iff.mp cycle
    obtain rfl : p = j := up_rightUnique first step
    exact ih (Relation.TransGen.tail' back step)

/-- Of two operands of a live node, neither is above the other. -/
theorem not_up_operand (detached : ∀ r, f.root = some r → f.parent r = none) (live : f.Live i)
    (ha : f.parent a = some i) (hb : f.parent b = some i) (ne : a ≠ b) :
    ¬ Relation.ReflTransGen f.Up a b := by
  intro path
  rcases path.cases_head with same | ⟨p, step, rest⟩
  · exact ne same
  · obtain rfl : p = i := up_rightUnique step ha
    exact not_up_self keeps detached live (Relation.TransGen.tail' rest hb)

/-- A live node does not occur below its own operands. -/
theorem notMem_nodes_of_slot (detached : ∀ r, f.root = some r → f.parent r = none) {t : Tree}
    (fits : t.Fits f.cells) (live : f.Live i) (slot : t.top ∈ f.slots i) : i ∉ t.nodes := by
  intro mem
  have up := up_of_path keeps (live.slot slot) (reachable_of_mem_nodes fits mem)
  exact not_up_self keeps detached live (Relation.TransGen.tail' up (keeps i live _ slot).1)

/-- Different operands of a live node have nothing in common. -/
theorem disjoint_of_slots (detached : ∀ r, f.root = some r → f.parent r = none) {s t : Tree}
    (fitsLeft : s.Fits f.cells) (fitsRight : t.Fits f.cells) (live : f.Live i)
    (left : s.top ∈ f.slots i) (right : t.top ∈ f.slots i) (ne : s.top ≠ t.top) :
    s.nodes.Disjoint t.nodes := by
  intro j hs ht
  have upLeft := up_of_path keeps (live.slot left) (reachable_of_mem_nodes fitsLeft hs)
  have upRight := up_of_path keeps (live.slot right) (reachable_of_mem_nodes fitsRight ht)
  have aboveLeft := (keeps i live _ left).1
  have aboveRight := (keeps i live _ right).1
  rcases upLeft.total_of_right_unique up_rightUnique upRight with up | up
  · exact not_up_operand keeps detached live aboveLeft aboveRight ne up
  · exact not_up_operand keeps detached live aboveRight aboveLeft ne.symm up

/-- No node occurs twice below a live node. -/
theorem nodup_of_keeps (detached : ∀ r, f.root = some r → f.parent r = none) {t : Tree}
    (fits : t.Fits f.cells) (live : ∀ i ∈ t.nodes, f.Live i) : t.nodes.Nodup := by
  induction t with
  | number i x => simp
  | var i key => simp
  | unary i op t ih =>
    have hi : f.Live i := live i (by simp)
    have slot : t.top ∈ f.slots i := by simp [slots_eq fits.1, Cell.slots]
    rw [Tree.nodes_unary, List.nodup_append']
    refine ⟨ih fits.2 fun j hj => live j (by simp [hj]), List.nodup_singleton i, ?_⟩
    rw [List.disjoint_singleton]
    exact notMem_nodes_of_slot keeps detached fits.2 hi slot
  | binary i op s t ihs iht =>
    have hi : f.Live i := live i (by simp)
    have slots : f.slots i = [s.top, t.top] := slots_eq fits.1
    have left : s.top ∈ f.slots i := by simp [slots]
    have right : t.top ∈ f.slots i := by simp [slots]
    have ne : s.top ≠ t.top := by
      intro same
      have once := (keeps i hi _ left).2
      simp [slots, same] at once
    rw [Tree.nodes_binary, List.nodup_append', List.nodup_append']
    refine ⟨⟨ihs fits.2.1 fun j hj => live j (by simp [hj]),
      iht fits.2.2 fun j hj => live j (by simp [hj]),
      disjoint_of_slots keeps detached fits.2.1 fits.2.2 hi left right ne⟩,
      List.nodup_singleton i, ?_⟩
    rw [List.disjoint_singleton, List.mem_append, not_or]
    exact ⟨notMem_nodes_of_slot keeps detached fits.2.1 hi left,
      notMem_nodes_of_slot keeps detached fits.2.2 hi right⟩

/-- No way down from a live node leads back to it. -/
theorem acyclic_of_keeps (detached : ∀ r, f.root = some r → f.parent r = none)
    (root_lt : ∀ r, f.root = some r → r < f.size)
    (slots_lt : ∀ i, ∀ c ∈ f.slots i, c < f.size) : f.Acyclic := by
  constructor
  · rintro i ⟨r, root, path⟩
    rcases path.cases_tail with same | ⟨p, -, step⟩
    · exact same ▸ root_lt r root
    · exact slots_lt p i step
  · intro i live cycle
    obtain ⟨p, path, step⟩ := Relation.TransGen.tail'_iff.mp cycle
    have above : f.Live p := by
      obtain ⟨r, root, down⟩ := live
      exact ⟨r, root, down.trans path⟩
    have up := up_of_path keeps live path
    exact not_up_self keeps detached live (.head' (keeps p above i step).1 up)

end

namespace Bonded

/-- If all live nodes keep their operands, the live expression is a tree. -/
theorem treeShaped (h : f.Bonded spent) (whole : ∀ i ∈ spent, ¬ f.Live i) : f.TreeShaped := by
  have keeps : ∀ i, f.Live i → f.Keeps i := by
    intro i live
    rw [h.keeps_iff]
    intro hi
    exact whole i hi live
  have acyclic := acyclic_of_keeps keeps h.root_detached h.root_lt h.slots_lt
  refine ⟨h.sizes, ?_, h.root_detached, ?_⟩
  · intro r root
    obtain ⟨t, rfl, fits⟩ := acyclic.exists_tree (i := r) ⟨r, root, .refl⟩
    have live : ∀ i ∈ t.nodes, f.Live i := fun i hi =>
      ⟨t.top, root, reachable_of_mem_nodes fits hi⟩
    obtain ⟨ns, walk, perm⟩ := walk_of_fits fits
    exact ⟨ns, walk, perm.nodup_iff.mpr (nodup_of_keeps keeps h.root_detached fits live)⟩
  · rintro c ⟨r, root, path⟩ ne
    rcases path.cases_tail with same | ⟨p, down, step⟩
    · exact absurd (same ▸ root) ne
    · have live : f.Live p := ⟨r, root, down⟩
      obtain ⟨above, once⟩ := keeps p live c step
      refine ⟨p, above, live, once, ?_⟩
      intro q hq slot
      have other := (keeps q hq c slot).1
      rw [above, Option.some.injEq] at other
      exact other.symm

theorem treeShaped_iff_forall (h : f.Bonded spent) : f.TreeShaped ↔ ∀ i ∈ spent, ¬ f.Live i := by
  constructor
  · intro shaped i hi live
    exact (h.keeps_iff i).mp (shaped.keeps live) hi
  · exact h.treeShaped

end Bonded

/-! ### A forest of live nodes only -/

/-- If the live tree has as many nodes as there are cells, it has them all. -/
theorem Holds.mem_nodes (h : f.Holds m (some l) []) (all : l.term.size = f.size)
    (lt : i < f.size) : i ∈ l.nodes := by
  have sub : l.nodes ⊆ List.range f.size := fun i hi =>
    List.mem_range.mpr (h.fits_live.lt i hi)
  have length : (List.range f.size).length ≤ l.nodes.length := by
    rw [List.length_range, ← all, ← l.length_descendants]
    exact Nat.le_of_eq l.descendants_perm.length_eq
  have perm := (h.stands.nodup_head.subperm sub).perm_of_length_le length
  exact perm.mem_iff.mpr (List.mem_range.mpr lt)

/-- If all cells are live, every parent has a slot for its child. -/
theorem Holds.mem_slots (h : f.Holds m (some l) []) (all : l.term.size = f.size)
    (above : f.parent i = some j) : i ∈ f.slots j := by
  have lt : i < f.size := by
    by_contra out
    rw [parent_of_le h.stands.sizes (Nat.not_lt.mp out)] at above
    cases above
  obtain ⟨k, s, rfl, rfl⟩ := Tree.exists_plug (h.mem_nodes all lt)
  have hole := h.stands.parent_hole
  cases k with
  | nil =>
    rw [above] at hole
    cases hole
  | cons d k =>
    rw [above, List.head?_cons, Option.map_some, Option.some.injEq] at hole
    have cell := (Context.fits_plug.mp h.fits_live).2.1
    rw [hole, slots_eq cell]
    cases d <;> simp [Frame.cell, Cell.slots]

theorem Holds.bonded (h : f.Holds m (some l) []) (all : l.term.size = f.size) : f.Bonded [] where
  sizes := h.stands.sizes
  slots_lt i c slot := by
    have hi := h.mem_nodes all (lt_of_mem_slots slot)
    have hc : c ∈ l.nodes := h.live_iff.mp ((h.live_iff.mpr hi).slot slot)
    exact h.fits_live.lt c hc
  root_lt r root := by
    rw [h.root, Option.map_some, Option.some.injEq] at root
    exact root ▸ h.fits_live.top_lt
  root_detached r root := by
    rw [h.root, Option.map_some, Option.some.injEq] at root
    exact root ▸ h.stands.detached l List.mem_cons_self
  mem_slots _ _ above := h.mem_slots all above
  keeps_iff i := by
    refine ⟨fun _ => List.not_mem_nil, fun _ => ?_⟩
    by_cases lt : i < f.size
    · exact h.keeps (h.mem_nodes all lt)
    · intro c slot
      exact absurd (lt_of_mem_slots slot) lt

end Forest

end Fluxion
