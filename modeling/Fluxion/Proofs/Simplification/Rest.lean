import Fluxion.Proofs.Simplification.Pass

/-!
# Forests at rest

Simplification of a forest in which nothing is left to replace does nothing, down to the last
cell and the retired nodes. In particular it does nothing when it is repeated.
-/

namespace Fluxion

variable [Elementary] {σ : Type} {f : Forest} {m : Mark} {t : Tree} {ts : List Tree} {notes : σ}

/-- A top that nothing replaces is found to reduce to nothing, or not to fold. -/
theorem Tree.Fits.reduct?_of_reductions (h : t.Fits f.cells) (rest : t.term.reductions = 0) :
    f.reduct? t.top = .ok none ∨ ∃ e, f.reduct? t.top = .error e := by
  rw [h.reduct?_eq]
  unfold Term.reductions at rest
  cases hr : t.term.remainder? with
  | error e => exact Or.inr ⟨e, rfl⟩
  | ok r? =>
    cases r? with
    | none => exact Or.inl rfl
    | some r => simp [hr] at rest

namespace Watch

theorem reduceNode_rest (sink : Sink σ) (count : Nat) (notes : σ) (h : t.Fits f.cells)
    (rest : t.term.reductions = 0) :
    ∃ notes', reduceNode sink count t.top ⟨f, notes⟩ = .ok count ⟨f, notes'⟩ := by
  rcases h.reduct?_of_reductions rest with none | ⟨e, failed⟩
  · exact ⟨notes, reduceNode_none sink count none⟩
  · exact ⟨_, reduceNode_error sink count failed⟩

/-- A sweep over the nodes of a part that a pass leaves alone. -/
theorem sweep_rest (sink : Sink σ) (count : Nat) (notes : σ) (h : t.Fits f.cells)
    (rest : t.term.passReductions = 0) :
    ∃ notes', t.descendants.foldlM (reduceNode sink) count ⟨f, notes⟩ = .ok count ⟨f, notes'⟩ := by
  induction t generalizing notes with
  | number i x =>
    simp only [Tree.descendants, List.foldlM_cons, List.foldlM_nil, bind_pure]
    exact reduceNode_rest sink count notes h rfl
  | var i key =>
    simp only [Tree.descendants, List.foldlM_cons, List.foldlM_nil, bind_pure]
    exact reduceNode_rest sink count notes h rfl
  | unary i op t ih =>
    rw [Tree.term, Term.passReductions, Nat.add_eq_zero_iff] at rest
    obtain ⟨below, top⟩ := rest
    rw [Term.pass_of_passReductions below] at top
    obtain ⟨notes₁, h₁⟩ := ih notes h.2 below
    obtain ⟨notes', hn⟩ := reduceNode_rest (t := .unary i op t) sink count notes₁ h top
    refine ⟨notes', ?_⟩
    rw [Tree.descendants, List.foldlM_append, bind_ok h₁]
    simp only [List.foldlM_cons, List.foldlM_nil, bind_pure]
    exact hn
  | binary i op s t ihs iht =>
    rw [Tree.term, Term.passReductions, Nat.add_eq_zero_iff, Nat.add_eq_zero_iff] at rest
    obtain ⟨⟨right, left⟩, top⟩ := rest
    rw [Term.pass_of_passReductions right, Term.pass_of_passReductions left] at top
    obtain ⟨notes₁, h₁⟩ := iht notes h.2.2 right
    obtain ⟨notes₂, h₂⟩ := ihs notes₁ h.2.1 left
    obtain ⟨notes', hn⟩ := reduceNode_rest (t := .binary i op s t) sink count notes₂ h top
    refine ⟨notes', ?_⟩
    rw [Tree.descendants, List.foldlM_append, List.foldlM_append,
      bind_ok ((bind_ok h₁).trans h₂)]
    simp only [List.foldlM_cons, List.foldlM_nil, bind_pure]
    exact hn

theorem simplifyPass_rest (sink : Sink σ) (notes : σ) (held : f.Holds m (some t) ts)
    (rest : t.term.passReductions = 0) :
    ∃ notes', simplifyPass sink ⟨f, notes⟩ = .ok 0 ⟨f, notes'⟩ := by
  obtain ⟨notes', swept⟩ := sweep_rest sink 0 notes held.fits_live rest
  refine ⟨notes', ?_⟩
  rw [simplifyPass, bind_ok (act_ok held.rootIndex), bind_ok (look_eq _),
    Forest.descendantsFirst_eq held.fits_live]
  exact swept

/-- Where a pass replaces nothing, simplification changes nothing. -/
theorem simplify_rest (sink : Sink σ) (notes : σ) (held : f.Holds m (some t) ts)
    (rest : t.term.passReductions = 0) :
    ∃ notes', simplify sink ⟨f, notes⟩ = .ok 0 ⟨f, notes'⟩ := by
  obtain ⟨notes', pass⟩ := simplifyPass_rest sink notes held rest
  obtain ⟨passes, limit⟩ := f.exists_passLimit
  have passes_ok : simplifyPasses sink f.passLimit 0 ⟨f, notes⟩ = .ok 0 ⟨f, notes'⟩ := by
    rw [limit, simplifyPasses, bind_ok pass]
    rfl
  refine ⟨notes', ?_⟩
  rw [simplify, bind_ok (look_eq _), bind_ok passes_ok]
  rfl

end Watch

end Fluxion
