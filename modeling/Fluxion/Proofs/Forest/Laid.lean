import Fluxion.Proofs.Forest.Packed

/-!
# Forests as they are made from terms

A forest that is made from a term has the cells of the term in postorder, each operator right
after its operands, and no others. Its registry has the symbols of the term. That settles what
is in the forest, down to the last slot and parent.
-/

namespace Fluxion

namespace Term

theorem nodes_laid (t : Term Key) (n : Nat) : (t.laid n).nodes = List.range' n t.size := by
  induction t generalizing n with
  | number x => rfl
  | var key => rfl
  | unary op t ih =>
    rw [laid, Tree.nodes_unary, ih, size, List.range'_concat]
    simp
  | binary op s t ihs iht =>
    have operands : List.range' n s.size ++ List.range' (n + s.size) t.size =
        List.range' n (s.size + t.size) := List.range'_append_1
    rw [laid, Tree.nodes_binary, ihs, iht, operands, size, List.range'_concat]
    simp [Nat.add_assoc]

end Term

namespace Forest

variable {f g : Forest} {r : Registry} {t : Term Key}

/-- The cells of `f` are those of the term, in postorder. -/
structure Laid (f : Forest) (r : Registry) (t : Term Key) : Prop where
  size : f.size = t.size
  retired : f.retired = #[]
  held : f.Holds ⟨r, 0⟩ (some (t.laid 0)) []

/-- The forest of a term has nothing but the term. -/
theorem ofTerm_size {u : Term Char} {g : Forest} (h : ofTerm u = .ok g) :
    g.size = u.size ∧ g.retired = #[] := by
  unfold ofTerm at h
  split at h
  · next planted =>
    cases h
    obtain ⟨i, f₁, plant, root⟩ := bind_eq_ok planted
    rw [Edit.plant, Algebra.run_program] at plant
    obtain ⟨size, retired⟩ := Edit.foldM_adds Edit.planting_builds u empty i f₁ plant
    obtain ⟨_, f₂, present, root⟩ := bind_eq_ok root
    rw [Edit.eq_of_require present] at root
    obtain ⟨_, f₃, unattached, root⟩ := bind_eq_ok root
    rw [Edit.eq_of_require unattached] at root
    cases root
    exact ⟨size.trans (Nat.zero_add _), retired⟩
  · cases h

theorem laid_of_ofTerm {u : Term Char} (h : ofTerm u = .ok f) :
    f.Laid (u.names.foldl Registry.register {}) (u.map Key.ofSymbol) := by
  obtain ⟨size, retired⟩ := ofTerm_size h
  obtain ⟨g, planted, held⟩ := empty_holds.plantRoot_laid u
  have made : ofTerm u = .ok g := by rw [ofTerm, planted]
  rw [made] at h
  cases h
  exact ⟨by rw [size, Term.size_map], retired, held⟩

namespace Laid

/-- Two forests made from one term with one registry are the same forest. -/
theorem unique (hf : f.Laid r t) (hg : g.Laid r t) : f = g := by
  refine hf.held.eq_of_all hg.held (hf.size.trans hg.size.symm)
    (hf.retired.trans hg.retired.symm) ?_
  intro i hi
  rw [Term.nodes_laid, List.mem_range'_1]
  exact ⟨Nat.zero_le i, by rwa [Nat.zero_add, ← hf.size]⟩

theorem registry (h : f.Laid r t) : f.registry = r := h.held.stands.registry

theorem root (h : f.Laid r t) : f.root = some (t.laid 0).top := h.held.root

theorem fits (h : f.Laid r t) : (t.laid 0).Fits f.cells := h.held.fits_live

theorem postorder (h : f.Laid r t) : f.postorder (t.laid 0).top = List.range f.size := by
  rw [postorder_eq h.fits, t.nodes_laid, h.size, List.range_eq_range']

theorem live (h : f.Laid r t) {i : Nat} (hi : i < f.size) : f.Live i := by
  rw [h.held.live_iff, t.nodes_laid, List.mem_range'_1, Nat.zero_add, ← h.size]
  exact ⟨Nat.zero_le i, hi⟩

theorem term? (h : f.Laid r t) : f.term? (t.laid 0).top = some t := by
  rw [term?_eq h.fits, t.term_laid]

end Laid

end Forest

end Fluxion
