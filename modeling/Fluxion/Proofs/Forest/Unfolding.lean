import Fluxion.Proofs.Forest.Acyclic
import Fluxion.Proofs.Forest.Traversal

/-!
# Nodes that unfold

A node without a cycle below it stands for a term, whether it is live or detached, and however
often the nodes below it are shared. No other node stands for a term.
-/

namespace Fluxion

namespace Forest

variable {f : Forest} {i j : Nat} {t : Tree}

/-- What can be reached from the node along slots is a cell and is not below itself. -/
structure AcyclicFrom (f : Forest) (i : Nat) : Prop where
  present : ∀ j, Relation.ReflTransGen (fun a b => b ∈ f.slots a) i j → j < f.size
  acyclic : ∀ j, Relation.ReflTransGen (fun a b => b ∈ f.slots a) i j →
    ¬ Relation.TransGen (fun a b => b ∈ f.slots a) j j

theorem AcyclicFrom.exists_tree (h : f.AcyclicFrom i) : ∃ t : Tree, t.top = i ∧ t.Fits f.cells := by
  have rooted : Acyclic { f with root := some i } := by
    constructor
    · rintro j ⟨r, root, path⟩
      cases root
      exact h.present j path
    · rintro j ⟨r, root, path⟩
      cases root
      exact h.acyclic j path
  exact rooted.exists_tree ⟨i, rfl, .refl⟩

/-- A tree gets less deep along every slot, and so on every path. -/
theorem exists_lower_of_path (h : t.Fits f.cells)
    (path : Relation.TransGen (fun a b => b ∈ f.slots a) t.top j) :
    ∃ s : Tree, s.top = j ∧ s.Fits f.cells ∧ s.depth < t.depth := by
  have lower {t : Tree} {j : Nat} (h : t.Fits f.cells) (slot : j ∈ f.slots t.top) :
      ∃ s : Tree, s.top = j ∧ s.Fits f.cells ∧ s.depth < t.depth := by
    rw [slots_eq h.cell] at slot
    obtain ⟨d, s, rfl, rfl⟩ := Tree.exists_fill_of_mem_slots slot
    refine ⟨s, rfl, ?_, ?_⟩
    · exact (Context.fits_plug (k := [d]).mp h).1
    · cases d <;> simp only [Frame.fill, Tree.depth] <;> omega
  induction path with
  | single slot => exact lower h slot
  | tail _ slot ih =>
    obtain ⟨s, rfl, fits, less⟩ := ih
    obtain ⟨u, top, fits, less'⟩ := lower fits slot
    exact ⟨u, top, fits, less'.trans less⟩

theorem exists_path_of_mem_under (h : t.Fits f.cells) (hj : j ∈ t.under) :
    Relation.TransGen (fun a b => b ∈ f.slots a) t.top j := by
  cases t with
  | number i x => cases hj
  | var i key => cases hj
  | unary i op t =>
    have slot : t.top ∈ f.slots i := by simp [slots_eq h.1, Cell.slots]
    exact .head' slot (reachable_of_mem_nodes h.2 hj)
  | binary i op s t =>
    have left : s.top ∈ f.slots i := by simp [slots_eq h.1, Cell.slots]
    have right : t.top ∈ f.slots i := by simp [slots_eq h.1, Cell.slots]
    rw [Tree.under_binary, List.mem_append] at hj
    rcases hj with hj | hj
    · exact .head' left (reachable_of_mem_nodes h.2.1 hj)
    · exact .head' right (reachable_of_mem_nodes h.2.2 hj)

/-- The top is nowhere below itself, even where nodes are shared. -/
theorem top_notMem_under_of_fits (h : t.Fits f.cells) : t.top ∉ t.under := by
  intro hj
  obtain ⟨s, top, fits, less⟩ := exists_lower_of_path h (exists_path_of_mem_under h hj)
  rw [fits.unique h top] at less
  exact less.false

theorem acyclicFrom_of_fits (h : t.Fits f.cells) : f.AcyclicFrom t.top := by
  constructor
  · intro j path
    exact h.lt j (mem_nodes_of_reachable h t.top_mem_nodes path)
  · intro j path cycle
    obtain ⟨k, s, rfl, rfl⟩ := Tree.exists_plug (mem_nodes_of_reachable h t.top_mem_nodes path)
    have fits := (Context.fits_plug.mp h).1
    obtain ⟨u, top, fits', less⟩ := exists_lower_of_path fits cycle
    rw [fits'.unique fits top] at less
    exact less.false

theorem exists_fits_of_termWithin? {cells : Array Cell} {depth : Nat} {term : Term Key}
    (h : termWithin? cells depth i = some term) : ∃ t : Tree, t.top = i ∧ t.Fits cells := by
  induction depth generalizing i term with
  | zero => cases h
  | succ depth ih =>
    rw [termWithin?] at h
    split at h
    · cases h
    · next x hc => exact ⟨.number i x, rfl, hc⟩
    · next key hc => exact ⟨.var i key, rfl, hc⟩
    · next op a hc =>
      obtain ⟨s, hs, -⟩ := Option.map_eq_some_iff.mp h
      obtain ⟨t, rfl, fits⟩ := ih hs
      exact ⟨.unary i op t, rfl, hc, fits⟩
    · next op a b hc =>
      obtain ⟨u, hu, h⟩ := Option.bind_eq_some_iff.mp h
      obtain ⟨v, hv, -⟩ := Option.bind_eq_some_iff.mp h
      obtain ⟨s, rfl, left⟩ := ih hu
      obtain ⟨t, rfl, right⟩ := ih hv
      exact ⟨.binary i op s t, rfl, hc, left, right⟩

theorem isSome_term?_iff : (f.term? i).isSome ↔ f.AcyclicFrom i := by
  constructor
  · intro h
    obtain ⟨term, hterm⟩ := Option.isSome_iff_exists.mp h
    obtain ⟨t, rfl, fits⟩ := exists_fits_of_termWithin? hterm
    exact acyclicFrom_of_fits fits
  · intro h
    obtain ⟨t, rfl, fits⟩ := h.exists_tree
    rw [term?_eq fits]
    rfl

end Forest

end Fluxion
