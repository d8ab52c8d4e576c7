import Fluxion.Proofs.Forest.Stand
import Mathlib.Logic.Relation

/-!
# Forests whose live expression is a tree

The live expression is a tree if the walk from the root ends and visits no node twice, and
the recorded parents are the nodes whose slots are filled. Nothing is asked of the cells
that are not live.
-/

namespace Fluxion

/-- The slots from left to right. -/
def Cell.slots : Cell → List Nat
  | unary _ a => [a]
  | binary _ a b => [a, b]
  | _ => []

/-- The operator in a cell, if it is no leaf. -/
def Cell.operator? : Cell → Option Operator
  | unary op _ => some (.unary op)
  | binary op _ _ => some (.binary op)
  | _ => none

/-- What fills a slot of the top is the top of an operand. -/
theorem Tree.exists_fill_of_mem_slots {s : Tree} {c : Nat} (h : c ∈ s.cell.slots) :
    ∃ (d : Frame) (n : Tree), s = d.fill n ∧ n.top = c := by
  cases s with
  | number i x => simp [cell, Cell.slots] at h
  | var i key => simp [cell, Cell.slots] at h
  | unary i op t =>
    simp only [cell, Cell.slots, List.mem_singleton] at h
    exact ⟨.unary i op, t, rfl, h.symm⟩
  | binary i op s t =>
    simp only [cell, Cell.slots, List.mem_cons, List.not_mem_nil, or_false] at h
    rcases h with h | h
    · exact ⟨.left i op t, s, rfl, h.symm⟩
    · exact ⟨.right i op s, t, rfl, h.symm⟩

/-- Whichever node of a tree has a slot for `a`, it is the parent of `a` in the tree. -/
theorem Tree.Fits.parent_eq {cells : Array Cell} {parent : Nat → Option Nat} {t : Tree}
    (fits : t.Fits cells) (linked : t.Linked parent) {i a : Nat} {c : Cell} (hi : i ∈ t.nodes)
    (hc : cells[i]? = some c) (ha : a ∈ c.slots) : parent a = some i := by
  obtain ⟨k, s, rfl, rfl⟩ := Tree.exists_plug hi
  rw [(Context.fits_plug.mp fits).1.cell, Option.some.injEq] at hc
  obtain ⟨d, n, rfl, rfl⟩ := Tree.exists_fill_of_mem_slots (hc ▸ ha)
  rw [(Context.linked_plug (k := d :: k) (s := n).mp linked).2.1]
  cases d <;> rfl

namespace Forest

def slots (f : Forest) (i : Nat) : List Nat :=
  match f.cells[i]? with
  | some c => c.slots
  | none => []

/-- The walk from a node along all slots ends, having visited the nodes that are listed. -/
inductive Walk (f : Forest) : Nat → List Nat → Prop where
  | leaf {i : Nat} (present : i < f.size) (slots : f.slots i = []) : Walk f i [i]
  | unary {i a : Nat} {ns : List Nat} (slots : f.slots i = [a]) (operand : Walk f a ns) :
      Walk f i (i :: ns)
  | binary {i a b : Nat} {ms ns : List Nat} (slots : f.slots i = [a, b])
      (left : Walk f a ms) (right : Walk f b ns) : Walk f i (i :: (ms ++ ns))

/-- A way along slots. -/
abbrev Reaches (f : Forest) (i j : Nat) : Prop :=
  Relation.ReflTransGen (fun a b => b ∈ f.slots a) i j

/-- Reachable from the root along slots. -/
def Live (f : Forest) (i : Nat) : Prop :=
  ∃ r, f.root = some r ∧ Relation.ReflTransGen (fun a b => b ∈ f.slots a) r i

structure TreeShaped (f : Forest) : Prop where
  sizes : f.parents.size = f.cells.size
  walk : ∀ r, f.root = some r → ∃ ns, f.Walk r ns ∧ ns.Nodup
  root : ∀ r, f.root = some r → f.parent r = none
  attached : ∀ c, f.Live c → f.root ≠ some c →
    ∃ p, f.parent c = some p ∧ f.Live p ∧ (f.slots p).count c = 1 ∧
      ∀ q, f.Live q → c ∈ f.slots q → q = p

variable {f : Forest} {m : Mark} {live : Option Tree} {l s t : Tree} {ts : List Tree} {k : Context}

theorem slots_eq {i : Nat} {c : Cell} (h : f.cells[i]? = some c) : f.slots i = c.slots := by
  simp only [slots, h]

theorem exists_cell_of_slots {i a : Nat} {as : List Nat} (h : f.slots i = a :: as) :
    ∃ c, f.cells[i]? = some c ∧ c.slots = a :: as := by
  unfold slots at h
  split at h
  · next c hc => exact ⟨c, hc, h⟩
  · cases h

theorem exists_cell_of_mem_slots {i a : Nat} (h : a ∈ f.slots i) :
    ∃ c, f.cells[i]? = some c ∧ a ∈ c.slots := by
  obtain ⟨b, bs, slots⟩ := List.exists_cons_of_ne_nil (List.ne_nil_of_mem h)
  obtain ⟨c, hc, same⟩ := exists_cell_of_slots slots
  rw [slots, ← same] at h
  exact ⟨c, hc, h⟩

/-! ### From the tree to the forest -/

theorem walk_of_fits (h : t.Fits f.cells) : ∃ ns, f.Walk t.top ns ∧ ns.Perm t.nodes := by
  induction t with
  | number i x => exact ⟨[i], .leaf h.top_lt (slots_eq h.cell), .refl _⟩
  | var i key => exact ⟨[i], .leaf h.top_lt (slots_eq h.cell), .refl _⟩
  | unary i op t ih =>
    obtain ⟨ns, walk, perm⟩ := ih h.2
    refine ⟨i :: ns, .unary (slots_eq h.cell) walk, ?_⟩
    exact (perm.cons i).trans (List.perm_append_singleton i t.nodes).symm
  | binary i op s t ihs iht =>
    obtain ⟨ms, left, permLeft⟩ := ihs h.2.1
    obtain ⟨ns, right, permRight⟩ := iht h.2.2
    refine ⟨i :: (ms ++ ns), .binary (slots_eq h.cell) left right, ?_⟩
    exact ((permLeft.append permRight).cons i).trans (List.perm_append_singleton i _).symm

theorem mem_nodes_of_reachable {i j : Nat} (h : t.Fits f.cells) (hi : i ∈ t.nodes)
    (path : Relation.ReflTransGen (fun a b => b ∈ f.slots a) i j) : j ∈ t.nodes := by
  induction path with
  | refl => exact hi
  | tail _ step ih =>
    obtain ⟨k, s, rfl, rfl⟩ := Tree.exists_plug ih
    rw [slots_eq (Context.fits_plug.mp h).1.cell] at step
    obtain ⟨d, n, rfl, rfl⟩ := Tree.exists_fill_of_mem_slots step
    exact Context.mem_nodes_plug (k := d :: k) |>.mpr (Or.inl n.top_mem_nodes)

theorem reachable_of_mem_nodes {i : Nat} (h : t.Fits f.cells) (hi : i ∈ t.nodes) :
    Relation.ReflTransGen (fun a b => b ∈ f.slots a) t.top i := by
  induction t with
  | number j x => exact List.mem_singleton.mp hi ▸ .refl
  | var j key => exact List.mem_singleton.mp hi ▸ .refl
  | unary j op t ih =>
    rw [Tree.nodes_unary, List.mem_append, List.mem_singleton] at hi
    have step : t.top ∈ f.slots j := by simp [slots_eq h.1, Cell.slots]
    rcases hi with hi | rfl
    · exact .head step (ih h.2 hi)
    · exact .refl
  | binary j op s t ihs iht =>
    rw [Tree.nodes_binary, List.mem_append, List.mem_append, List.mem_singleton] at hi
    have left : s.top ∈ f.slots j := by simp [slots_eq h.1, Cell.slots]
    have right : t.top ∈ f.slots j := by simp [slots_eq h.1, Cell.slots]
    rcases hi with (hi | hi) | rfl
    · exact .head left (ihs h.2.1 hi)
    · exact .head right (iht h.2.2 hi)
    · exact .refl

theorem live_iff_of_fits (fits : l.Fits f.cells) (root : f.root = some l.top) {i : Nat} :
    f.Live i ↔ i ∈ l.nodes := by
  constructor
  · rintro ⟨r, hr, path⟩
    cases root.symm.trans hr
    exact mem_nodes_of_reachable fits l.top_mem_nodes path
  · intro hi
    exact ⟨l.top, root, reachable_of_mem_nodes fits hi⟩

theorem Holds.live_iff (h : f.Holds m (some l) ts) {i : Nat} : f.Live i ↔ i ∈ l.nodes :=
  live_iff_of_fits (h.stands.fits l List.mem_cons_self) h.root

/-- The slots of a frame, the hole being filled. -/
theorem count_slots {c : Frame} {a : Nat} (h : f.cells[c.node]? = some (c.cell a))
    (off : a ∉ c.side) : (f.slots c.node).count a = 1 := by
  rw [slots_eq h]
  cases c with
  | unary i op => simp [Frame.cell, Cell.slots]
  | left i op t =>
    have ne : t.top ≠ a := fun he => off (he ▸ t.top_mem_nodes)
    simp [Frame.cell, Cell.slots, ne]
  | right i op s =>
    have ne : s.top ≠ a := fun he => off (he ▸ s.top_mem_nodes)
    simp [Frame.cell, Cell.slots, ne]

theorem Holds.treeShaped_some (h : f.Holds m (some l) ts) : f.TreeShaped where
  sizes := h.stands.sizes
  walk r root := by
    rw [h.root, Option.map_some, Option.some.injEq] at root
    subst root
    obtain ⟨ns, walk, perm⟩ := walk_of_fits (h.stands.fits l List.mem_cons_self)
    exact ⟨ns, walk, perm.nodup_iff.mpr h.stands.nodup_head⟩
  root r root := by
    rw [h.root, Option.map_some, Option.some.injEq] at root
    subst root
    exact h.stands.detached l List.mem_cons_self
  attached c live ne := by
    obtain ⟨k, s, rfl, rfl⟩ := Tree.exists_plug (h.live_iff.mp live)
    have fits := h.stands.fits _ List.mem_cons_self
    have linked := h.stands.linked _ List.mem_cons_self
    cases k with
    | nil => exact absurd h.root ne
    | cons d k =>
      have above : f.parent s.top = some d.node := h.stands.parent_hole
      have off : s.top ∉ Context.nodes (d :: k) := h.stands.top_notMem_context
      obtain ⟨cell, -, -⟩ := (Context.fits_plug.mp fits).2
      refine ⟨d.node, above, h.live_iff.mpr ?_, count_slots cell ?_, ?_⟩
      · exact Context.mem_nodes_plug.mpr (Or.inr (by simp [Context.nodes]))
      · intro hs
        exact off (by simp [Context.nodes, hs])
      · intro q hq hc
        obtain ⟨c, cell, slot⟩ := exists_cell_of_mem_slots hc
        have below := fits.parent_eq linked (h.live_iff.mp hq) cell slot
        exact Option.some.inj (below.symm.trans above)

/-- A forest with trees that stand has a live expression that is a tree, if it has one. -/
theorem Holds.treeShaped (h : f.Holds m live ts) : f.TreeShaped := by
  cases live with
  | some l => exact h.treeShaped_some
  | none =>
    have rootless : ∀ r, f.root ≠ some r := by simp [h.root]
    refine ⟨h.stands.sizes, ?_, ?_, ?_⟩
    · intro r hr
      exact absurd hr (rootless r)
    · intro r hr
      exact absurd hr (rootless r)
    · rintro c ⟨r, hr, -⟩
      exact absurd hr (rootless r)

/-! ### From the forest to the tree -/

theorem Walk.exists_tree {i : Nat} {ns : List Nat} (walk : f.Walk i ns) :
    ∃ t : Tree, t.top = i ∧ t.Fits f.cells ∧ ns.Perm t.nodes := by
  induction walk with
  | @leaf i present slots =>
    obtain ⟨c, hc⟩ : ∃ c, f.cells[i]? = some c := ⟨_, Array.getElem?_eq_getElem present⟩
    rw [slots_eq hc] at slots
    cases c with
    | number x => exact ⟨.number i x, rfl, hc, .refl _⟩
    | var key => exact ⟨.var i key, rfl, hc, .refl _⟩
    | unary op a => cases slots
    | binary op a b => cases slots
  | @unary i a ns slots walk ih =>
    obtain ⟨c, hc, slots⟩ := exists_cell_of_slots slots
    obtain ⟨t, rfl, fits, perm⟩ := ih
    cases c with
    | number x => cases slots
    | var key => cases slots
    | binary op a b => cases slots
    | unary op a =>
      cases slots
      refine ⟨.unary i op t, rfl, ⟨hc, fits⟩, ?_⟩
      exact (perm.cons i).trans (List.perm_append_singleton i t.nodes).symm
  | @binary i a b ms ns slots left right ihl ihr =>
    obtain ⟨c, hc, slots⟩ := exists_cell_of_slots slots
    obtain ⟨s, rfl, fitsLeft, permLeft⟩ := ihl
    obtain ⟨t, rfl, fitsRight, permRight⟩ := ihr
    cases c with
    | number x => cases slots
    | var key => cases slots
    | unary op a => cases slots
    | binary op a b =>
      cases slots
      refine ⟨.binary i op s t, rfl, ⟨hc, fitsLeft, fitsRight⟩, ?_⟩
      exact ((permLeft.append permRight).cons i).trans (List.perm_append_singleton i _).symm

/-- The recorded parents are those of the tree. -/
theorem TreeShaped.linked (h : f.TreeShaped) (fits : t.Fits f.cells)
    (live : ∀ i ∈ t.nodes, f.Live i) (below : ∀ i ∈ t.under, f.root ≠ some i) :
    t.Linked f.parent := by
  have parent {c i : Nat} (hc : f.Live c) (hr : f.root ≠ some c) (hi : f.Live i)
      (slot : c ∈ f.slots i) : f.parent c = some i := by
    obtain ⟨p, above, -, -, only⟩ := h.attached c hc hr
    rw [only i hi slot]
    exact above
  induction t with
  | number i x => trivial
  | var i key => trivial
  | unary i op t ih =>
    refine ⟨parent (live _ (by simp)) (below _ (by simp)) (live i (by simp)) ?_, ih fits.2 ?_ ?_⟩
    · simp [slots_eq fits.1, Cell.slots]
    · exact fun j hj => live j (by simp [hj])
    · exact fun j hj => below j (by simp [Tree.mem_nodes, hj])
  | binary i op s t ihs iht =>
    refine ⟨parent (live _ (by simp)) (below _ (by simp)) (live i (by simp)) ?_,
      parent (live _ (by simp)) (below _ (by simp)) (live i (by simp)) ?_,
      ihs fits.2.1 ?_ ?_, iht fits.2.2 ?_ ?_⟩
    · simp [slots_eq fits.1, Cell.slots]
    · simp [slots_eq fits.1, Cell.slots]
    · exact fun j hj => live j (by simp [hj])
    · exact fun j hj => below j (by simp [Tree.mem_nodes, hj])
    · exact fun j hj => live j (by simp [hj])
    · exact fun j hj => below j (by simp [Tree.mem_nodes, hj])

/-- The live expression stands as a tree; of the cells that are retired already nothing is
known. -/
theorem TreeShaped.exists_holds (h : f.TreeShaped) :
    ∃ live, f.Holds ⟨f.registry, f.retired.size⟩ live [] := by
  have past : f.retired.toList.drop f.retired.size = [] :=
    List.drop_eq_nil_of_le (Nat.le_of_eq f.retired.length_toList)
  cases root : f.root with
  | none =>
    refine ⟨none, root, h.sizes, rfl, ?_, ?_, ?_, List.nodup_nil, ?_⟩
    all_goals simp [past]
  | some r =>
    obtain ⟨ns, walk, nodup⟩ := h.walk r root
    obtain ⟨l, rfl, fits, perm⟩ := walk.exists_tree
    have nodup : l.nodes.Nodup := perm.nodup_iff.mp nodup
    have linked : l.Linked f.parent := by
      apply h.linked fits
      · intro i hi
        exact ⟨_, root, reachable_of_mem_nodes fits hi⟩
      · intro i hi he
        rw [root, Option.some.injEq] at he
        exact Tree.top_notMem_under nodup (he ▸ hi)
    exact ⟨some l, holds_of_tree h.sizes root fits linked (h.root _ root) nodup (by simp [past])⟩

theorem TreeShaped.exists_holds_some (h : f.TreeShaped) (root : ∃ r, f.root = some r) :
    ∃ l, f.Holds ⟨f.registry, f.retired.size⟩ (some l) [] := by
  obtain ⟨live, holds⟩ := h.exists_holds
  cases live with
  | some l => exact ⟨l, holds⟩
  | none =>
    obtain ⟨r, root⟩ := root
    rw [holds.root] at root
    cases root

/-- Retired cells are not live. -/
theorem Holds.unretired (h : f.Holds m live ts) (past : m.past = 0) {i : Nat}
    (hi : i ∈ f.retired) : ¬ f.Live i := by
  cases live with
  | none =>
    rintro ⟨r, hr, -⟩
    simp [h.root] at hr
  | some l =>
    rw [h.live_iff]
    intro hm
    have off := (h.stands.retired i (by simpa [past] using hi)).2
    exact off (List.mem_append_left _ hm)

end Forest

end Fluxion
