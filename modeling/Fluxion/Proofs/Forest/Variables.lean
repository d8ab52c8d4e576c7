import Fluxion.Proofs.Forest.Shape
import Fluxion.Proofs.Forest.Surgery

/-!
# The variables of the live expression

The keys in the cells that are live. Where a tree lives, these are the names in its term.
-/

namespace Fluxion

theorem Tree.Fits.mem_names_iff {cells : Array Cell} {t : Tree} {key : Key} (h : t.Fits cells) :
    key ∈ t.term.names ↔ ∃ i ∈ t.nodes, cells[i]? = some (.var key) := by
  induction t with
  | number i x =>
    have hc : cells[i]? = some (.number x) := h
    simp [Tree.term, Term.names, hc]
  | var i key' =>
    have hc : cells[i]? = some (.var key') := h
    simp [Tree.term, Term.names, hc, eq_comm]
  | unary i op t ih =>
    have top := h.cell
    simp only [Tree.cell, top_unary] at top
    simp [Tree.term, Term.names, ih h.2, or_and_right, exists_or, top]
  | binary i op s t ihs iht =>
    have top := h.cell
    simp only [Tree.cell, top_binary] at top
    simp [Tree.term, Term.names, ihs h.2.1, iht h.2.2, or_and_right, exists_or, top]

namespace Forest

/-- The keys of the live variables. -/
def liveKeys (f : Forest) : Set Key := { key | ∃ i, f.Live i ∧ f.cells[i]? = some (.var key) }

theorem Holds.mem_liveKeys {f : Forest} {m : Mark} {l : Tree} {ts : List Tree} {key : Key}
    (h : f.Holds m (some l) ts) : key ∈ f.liveKeys ↔ key ∈ l.term.names := by
  rw [h.fits_live.mem_names_iff]
  exact exists_congr fun i => and_congr_left' h.live_iff

end Forest

end Fluxion
