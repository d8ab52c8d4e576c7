import Fluxion.Journal.Sinks
import Fluxion.Proofs.Derivative.Construction
import Fluxion.Proofs.Derivative.Real
import Fluxion.Proofs.Forest.Replacement

/-!
# Soundness of differentiation

Differentiating an expression at a live node never fails, and puts in its place an
expression that denotes its partial derivative.
-/

namespace Fluxion

/-- Where the expression at a live node is inside its domain, the expression that takes its
place has the value of its partial derivative. -/
theorem differentiate_hasDerivAt {σ : Type} (sink : Sink σ) (notes : σ) (f : Forest)
    (shaped : f.TreeShaped) (i : Nat) (live : f.Live i) (key : Key) :
    ∃ (d : Nat) (g : Forest) (notes' : σ) (e e' : Term Key),
      Watch.differentiate sink i key ⟨f, notes⟩ = .ok d ⟨g, notes'⟩ ∧
      f.InPlaceOf g i d ∧ f.term? i = some e ∧ g.term? d = some e' ∧
      ∀ ρ : Key → ℝ, e.Inside ρ key →
        HasDerivAt (fun x => e.real (Function.update ρ key x)) (e'.real ρ) (ρ key) := by
  obtain ⟨live?, holds⟩ := shaped.exists_holds
  cases live? with
  | none =>
    obtain ⟨r, root, -⟩ := live
    simp [holds.root] at root
  | some l =>
    obtain ⟨k, t, rfl, rfl⟩ := Tree.exists_plug (holds.live_iff.mp live)
    obtain ⟨u, g, notes', hd, term, held⟩ := Watch.differentiate_part sink key notes holds
    refine ⟨u.top, g, notes', t.term, u.term, hd, holds.inPlaceOf held, ?_, ?_, ?_⟩
    · exact Forest.term?_eq (Context.fits_plug.mp holds.fits_live).1
    · exact Forest.term?_eq (Context.fits_plug.mp held.fits_live).1
    · intro ρ inside
      rw [term]
      exact Term.hasDerivAt_derivative inside

/-- The forest of `x + ln(x)`. -/
def sumWithLogarithm : Forest where
  cells := #[.var (.ofSymbol 'x'), .var (.ofSymbol 'x'), .unary .ln 1, .binary .add 0 2]
  parents := #[some 3, some 2, some 3, none]
  root := some 3
  registry := ⟨[⟨'x', none⟩]⟩

theorem sumWithLogarithm_holds :
    sumWithLogarithm.Holds ⟨sumWithLogarithm.registry, 0⟩
      (some (.binary 3 .add (.var 0 (.ofSymbol 'x')) (.unary 2 .ln (.var 1 (.ofSymbol 'x')))))
      [] := by
  refine Forest.holds_of_tree rfl rfl ?_ ?_ rfl (by decide) (by decide)
  · exact ⟨rfl, rfl, rfl, rfl⟩
  · exact ⟨rfl, rfl, trivial, rfl, trivial⟩

/-- In `x + ln(x)` the logarithm alone is differentiated, at 2. -/
theorem differentiate_logarithm_at_two :
    sumWithLogarithm.TreeShaped ∧ sumWithLogarithm.Live 2 ∧
      ∃ (d : Nat) (g : Forest) (e' : Term Key),
        Watch.differentiate Sink.silent 2 (.ofSymbol 'x') ⟨sumWithLogarithm, ()⟩ =
          .ok d ⟨g, ()⟩ ∧
        g.cells[3]? = some (.binary .add 0 d) ∧ g.term? d = some e' ∧
        HasDerivAt Real.log (e'.real fun _ => 2) 2 := by
  have shaped := sumWithLogarithm_holds.treeShaped
  have live : sumWithLogarithm.Live 2 := sumWithLogarithm_holds.live_iff.mpr (by decide)
  obtain ⟨d, g, notes, e, e', hd, place, he, he', sound⟩ :=
    differentiate_hasDerivAt Sink.silent () sumWithLogarithm shaped 2 live (.ofSymbol 'x')
  refine ⟨shaped, live, d, g, e', hd, (place.slot 3 rfl).2, he', ?_⟩
  cases he.symm.trans (show sumWithLogarithm.term? 2 =
    some (.unary .ln (.var (.ofSymbol 'x'))) from rfl)
  have inside : (Term.unary .ln (.var (.ofSymbol 'x'))).Inside (fun _ => 2) (.ofSymbol 'x') :=
    ⟨fun _ => by simp [Unary.Inside, Term.real], trivial⟩
  simpa [Term.real, Unary.real] using sound (fun _ => 2) inside

end Fluxion
