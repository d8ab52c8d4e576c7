import Fluxion.Proofs.Forest.Tree

/-!
# Contexts

A context is what is left of a tree when one of its parts is taken out: the nodes above
the hole, the innermost first, each with its other operand. Fitting the cells and being
linked are split into a condition on the part and a condition on the context, which
mentions the part only by its top.
-/

namespace Fluxion

inductive Frame where
  | unary (i : Nat) (op : Unary)
  | left (i : Nat) (op : Binary) (t : Tree)
  | right (i : Nat) (op : Binary) (s : Tree)

namespace Frame

def node : Frame → Nat
  | unary i _ | left i _ _ | right i _ _ => i

def fill (s : Tree) : Frame → Tree
  | unary i op => .unary i op s
  | left i op t => .binary i op s t
  | right i op r => .binary i op r s

/-- The nodes of the other operand. -/
def side : Frame → List Nat
  | unary _ _ => []
  | left _ _ t | right _ _ t => t.nodes

/-- What the node holds while the hole has its top in `a`. -/
def cell (a : Nat) : Frame → Cell
  | unary _ op => .unary op a
  | left _ op t => .binary op a t.top
  | right _ op s => .binary op s.top a

def SideFits (cells : Array Cell) : Frame → Prop
  | unary _ _ => True
  | left _ _ t | right _ _ t => t.Fits cells

def SideLinked (parent : Nat → Option Nat) : Frame → Prop
  | unary _ _ => True
  | left i _ t | right i _ t => parent t.top = some i ∧ t.Linked parent

theorem SideFits.congr {cells cells' : Array Cell} {c : Frame} (h : c.SideFits cells)
    (same : ∀ i ∈ c.side, cells'[i]? = cells[i]?) : c.SideFits cells' := by
  cases c with
  | unary i op => trivial
  | left i op t => exact Tree.Fits.congr h same
  | right i op t => exact Tree.Fits.congr h same

theorem SideLinked.congr {parent parent' : Nat → Option Nat} {c : Frame}
    (h : c.SideLinked parent) (same : ∀ i ∈ c.side, parent' i = parent i) :
    c.SideLinked parent' := by
  have below {t : Tree} (same : ∀ i ∈ t.nodes, parent' i = parent i) :
      ∀ i ∈ t.under, parent' i = parent i := fun i hi => same i (Tree.mem_nodes.mpr (Or.inl hi))
  cases c with
  | unary i op => trivial
  | left i op t => exact ⟨(same t.top t.top_mem_nodes).trans h.1, h.2.congr (below same)⟩
  | right i op t => exact ⟨(same t.top t.top_mem_nodes).trans h.1, h.2.congr (below same)⟩

end Frame

abbrev Context := List Frame

namespace Context

def plug : Context → Tree → Tree
  | [], s => s
  | c :: k, s => plug k (c.fill s)

def nodes : Context → List Nat
  | [] => []
  | c :: k => c.node :: c.side ++ nodes k

/-- The top of the whole, the part having its top in `a`. -/
def top : Context → Nat → Nat
  | [], a => a
  | c :: k, _ => top k c.node

def Fits (cells : Array Cell) : Context → Nat → Prop
  | [], _ => True
  | c :: k, a => cells[c.node]? = some (c.cell a) ∧ c.SideFits cells ∧ Fits cells k c.node

def Linked (parent : Nat → Option Nat) : Context → Nat → Prop
  | [], _ => True
  | c :: k, a => parent a = some c.node ∧ c.SideLinked parent ∧ Linked parent k c.node

theorem top_plug (k : Context) (s : Tree) : (k.plug s).top = k.top s.top := by
  induction k generalizing s with
  | nil => rfl
  | cons c k ih =>
    rw [plug, top, ih]
    cases c <;> rfl

theorem nodes_plug (k : Context) (s : Tree) : (k.plug s).nodes.Perm (s.nodes ++ k.nodes) := by
  induction k generalizing s with
  | nil => simp [plug, nodes]
  | cons c k ih =>
    refine (ih (c.fill s)).trans ?_
    cases c with
    | unary i op => simp [Frame.fill, nodes, Frame.node, Frame.side]
    | left i op t =>
      simp only [Frame.fill, nodes, Frame.node, Frame.side, Tree.nodes_binary,
        List.append_assoc, List.singleton_append]
      exact List.perm_middle.append_left s.nodes
    | right i op r =>
      simp only [Frame.fill, nodes, Frame.node, Frame.side, Tree.nodes_binary,
        List.append_assoc, List.singleton_append]
      have swap := (@List.perm_append_comm _ r.nodes s.nodes).append_right (i :: nodes k)
      rw [List.append_assoc, List.append_assoc] at swap
      exact swap.trans (List.perm_middle.append_left s.nodes)

theorem mem_nodes_plug {k : Context} {s : Tree} {i : Nat} :
    i ∈ (k.plug s).nodes ↔ i ∈ s.nodes ∨ i ∈ k.nodes := by
  rw [(nodes_plug k s).mem_iff, List.mem_append]

theorem fits_plug {cells : Array Cell} {k : Context} {s : Tree} :
    (k.plug s).Fits cells ↔ s.Fits cells ∧ k.Fits cells s.top := by
  induction k generalizing s with
  | nil => simp [plug, Fits]
  | cons c k ih =>
    rw [plug, ih]
    cases c with
    | unary i op =>
      simp only [Frame.fill, Tree.Fits, Tree.top_unary, Fits, Frame.node, Frame.cell,
        Frame.SideFits]
      tauto
    | left i op t =>
      simp only [Frame.fill, Tree.Fits, Tree.top_binary, Fits, Frame.node, Frame.cell,
        Frame.SideFits]
      tauto
    | right i op r =>
      simp only [Frame.fill, Tree.Fits, Tree.top_binary, Fits, Frame.node, Frame.cell,
        Frame.SideFits]
      tauto

theorem linked_plug {parent : Nat → Option Nat} {k : Context} {s : Tree} :
    (k.plug s).Linked parent ↔ s.Linked parent ∧ k.Linked parent s.top := by
  induction k generalizing s with
  | nil => simp [plug, Linked]
  | cons c k ih =>
    rw [plug, ih]
    cases c with
    | unary i op =>
      simp only [Frame.fill, Tree.Linked, Tree.top_unary, Linked, Frame.node,
        Frame.SideLinked]
      tauto
    | left i op t =>
      simp only [Frame.fill, Tree.Linked, Tree.top_binary, Linked, Frame.node,
        Frame.SideLinked]
      tauto
    | right i op r =>
      simp only [Frame.fill, Tree.Linked, Tree.top_binary, Linked, Frame.node,
        Frame.SideLinked]
      tauto

theorem Fits.congr {cells cells' : Array Cell} {k : Context} {a : Nat} (h : k.Fits cells a)
    (same : ∀ i ∈ k.nodes, cells'[i]? = cells[i]?) : k.Fits cells' a := by
  induction k generalizing a with
  | nil => trivial
  | cons c k ih =>
    obtain ⟨hc, hs, hk⟩ := h
    have atSide : ∀ i ∈ c.side, cells'[i]? = cells[i]? := by
      intro i hi
      exact same i (by simp [nodes, hi])
    have outside : ∀ i ∈ nodes k, cells'[i]? = cells[i]? := by
      intro i hi
      exact same i (by simp [nodes, hi])
    exact ⟨(same c.node (by simp [nodes])).trans hc, hs.congr atSide, ih hk outside⟩

/-- Of the nodes of the context, all but the top of the whole have a parent that counts. -/
theorem Linked.congr {parent parent' : Nat → Option Nat} {k : Context} {a b : Nat}
    (h : k.Linked parent a) (hole : k ≠ [] → parent' b = parent a)
    (same : ∀ i ∈ k.nodes, parent' i = parent i) : k.Linked parent' b := by
  induction k generalizing a b with
  | nil => trivial
  | cons c k ih =>
    obtain ⟨hc, hs, hk⟩ := h
    have atSide : ∀ i ∈ c.side, parent' i = parent i := by
      intro i hi
      exact same i (by simp [nodes, hi])
    have outside : ∀ i ∈ nodes k, parent' i = parent i := by
      intro i hi
      exact same i (by simp [nodes, hi])
    exact ⟨(hole (by simp)).trans hc, hs.congr atSide,
      ih hk (fun _ => same c.node (by simp [nodes])) outside⟩

theorem top_mem_nodes (c : Frame) (k : Context) (a : Nat) :
    top (c :: k) a ∈ nodes (c :: k) := by
  induction k generalizing c a with
  | nil => simp [top, nodes]
  | cons d k ih =>
    rw [nodes]
    exact List.mem_append_right _ (ih d c.node)

theorem plug_append (j k : Context) (s : Tree) : plug (j ++ k) s = k.plug (j.plug s) := by
  induction j generalizing s with
  | nil => rfl
  | cons c j ih => exact ih (c.fill s)

/-- Variables that are not new to a part are not new to the whole. -/
theorem names_plug_subset {s t : Tree} (k : Context) (h : s.term.names ⊆ t.term.names) :
    (k.plug s).term.names ⊆ (k.plug t).term.names := by
  induction k generalizing s t with
  | nil => exact h
  | cons c k ih =>
    apply ih
    cases c with
    | unary i op => exact h
    | left i op r =>
      exact List.append_subset.mpr
        ⟨List.subset_append_of_subset_left _ h, List.subset_append_right _ _⟩
    | right i op r =>
      exact List.append_subset.mpr
        ⟨List.subset_append_left _ _, List.subset_append_of_subset_right _ h⟩

end Context

/-- Every node of a tree is the top of one of its parts. -/
theorem Tree.exists_plug {t : Tree} {i : Nat} (h : i ∈ t.nodes) :
    ∃ (k : Context) (s : Tree), t = k.plug s ∧ s.top = i := by
  induction t with
  | number j x => exact ⟨[], _, rfl, (List.mem_singleton.mp h).symm⟩
  | var j key => exact ⟨[], _, rfl, (List.mem_singleton.mp h).symm⟩
  | unary j op t ih =>
    rw [nodes_unary, List.mem_append, List.mem_singleton] at h
    rcases h with h | rfl
    · obtain ⟨k, s, rfl, hs⟩ := ih h
      exact ⟨k ++ [.unary j op], s, by rw [Context.plug_append]; rfl, hs⟩
    · exact ⟨[], _, rfl, rfl⟩
  | binary j op t₁ t₂ ih₁ ih₂ =>
    rw [nodes_binary, List.mem_append, List.mem_append, List.mem_singleton] at h
    rcases h with (h | h) | rfl
    · obtain ⟨k, s, rfl, hs⟩ := ih₁ h
      exact ⟨k ++ [.left j op t₂], s, by rw [Context.plug_append]; rfl, hs⟩
    · obtain ⟨k, s, rfl, hs⟩ := ih₂ h
      exact ⟨k ++ [.right j op t₁], s, by rw [Context.plug_append]; rfl, hs⟩
    · exact ⟨[], _, rfl, rfl⟩

end Fluxion
