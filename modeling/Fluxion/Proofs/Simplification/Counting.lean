import Fluxion.Proofs.Forest.Numbers
import Fluxion.Proofs.Forest.Shape
import Fluxion.Proofs.Reports
import Fluxion.Proofs.Simplification.Identity
import Fluxion.Proofs.Simplification.Pass

/-!
# Counting live numbers

Operations give numbers of some kinds only if they are given such numbers. Of these kinds,
there are not more in the live expression after its simplification than before.
-/

namespace Fluxion

variable [Elementary] {σ : Type} {ν : Type} {p : Float → Bool} {f : Forest}

/-- Every number of the kind that an operation gives without a signal comes from an operand. -/
structure Inherited (p : Float → Bool) : Prop where
  unary : ∀ (op : Unary) (x v : Float), op.apply x = .ok v → p v = true → p x = true
  binary : ∀ (op : Binary) (x y v : Float), op.apply x y = .ok v → p v = true →
    p x = true ∨ p y = true
  zero : p 0 = false
  one : p 1 = false

omit [Elementary] in
theorem any_isNaN_of_signal?_eq_none {xs : List Float} {pole vanishes : Bool} {r : Float}
    (nan : r.isNaN = true) (h : signal? xs pole vanishes r = none) : xs.any Float.isNaN = true := by
  by_contra none
  rw [signal?, if_pos nan, if_neg none] at h
  cases h

theorem isNaN_inherited : Inherited Float.isNaN where
  unary op x v h nan := by
    obtain ⟨quiet, rfl⟩ := Unary.apply_eq_ok.mp h
    simpa using any_isNaN_of_signal?_eq_none nan quiet
  binary op x y v h nan := by
    obtain ⟨quiet, rfl⟩ := Binary.apply_eq_ok.mp h
    simpa using any_isNaN_of_signal?_eq_none nan quiet
  zero := rfl
  one := rfl

theorem not_isFinite_inherited : Inherited fun x => !x.isFinite where
  unary op x v h infinite := by
    by_contra finite
    simp only [Bool.not_eq_true, Bool.not_eq_false'] at infinite finite
    simp [Unary.isFinite_apply finite h] at infinite
  binary op x y v h infinite := by
    by_contra finite
    simp only [not_or, Bool.not_eq_true, Bool.not_eq_false'] at infinite finite
    simp [Binary.isFinite_apply finite.1 finite.2 h] at infinite
  zero := rfl
  one := rfl

/-- What is left of a term has no more numbers of the kind. -/
theorem Term.countP_reduce (inherited : Inherited p) (t : Term ν) :
    t.reduce.numbers.countP p ≤ t.numbers.countP p := by
  rcases t.reduce_cases with ⟨-, same⟩ | ⟨r, hr, left⟩
  · rw [same]
  · rw [left]
    cases t with
    | number x => simp [remainder?] at hr
    | var n => simp [remainder?] at hr
    | unary op t =>
      obtain ⟨x, v, rfl, hv, rfl⟩ := remainder?_unary hr
      simp only [leave, numbers, List.countP_singleton]
      by_cases kind : p v = true
      · simp [kind, inherited.unary op x v hv kind]
      · simp [kind]
    | binary op s t =>
      rcases remainder?_binary hr with ⟨x, y, v, rfl, rfl, hv, rfl⟩ | ⟨-, identity⟩
      · simp only [leave, numbers, List.countP_append, List.countP_singleton]
        by_cases kind : p v = true
        · rcases inherited.binary op x y v hv kind with hx | hy
          · simp [kind, hx]
          · simp [kind, hy]
        · simp [kind]
      · cases r with
        | constant c =>
          rcases Binary.constant_of_identity? identity with rfl | rfl
          · simp [leave, numbers, inherited.zero]
          · simp [leave, numbers, inherited.one]
        | left => simp [leave, numbers]
        | right => simp [leave, numbers]

theorem Term.countP_pass (inherited : Inherited p) (t : Term ν) :
    t.pass.numbers.countP p ≤ t.numbers.countP p := by
  induction t with
  | number x => exact Nat.le_refl _
  | var n => exact Nat.le_refl _
  | unary op t ih => exact (countP_reduce inherited (unary op t.pass)).trans ih
  | binary op s t ihs iht =>
    have top := countP_reduce inherited (binary op s.pass t.pass)
    simp only [numbers, List.countP_append] at top ⊢
    rw [pass]
    omega

namespace Forest

/-- The numbers of the live expression, one for each node that holds one. -/
def liveNumbers (f : Forest) : List Float :=
  match f.root with
  | some r => (f.descendantsFirst r).filterMap f.number?
  | none => []

end Forest

omit [Elementary] in
theorem Tree.Fits.numbers {t : Tree} (h : t.Fits f.cells) :
    t.descendants.filterMap f.number? = t.term.numbers := by
  induction t with
  | number i x =>
    have number := h.number?_eq
    simp only [Tree.top] at number
    simp [Tree.descendants, number, Tree.term, Term.number?, Term.numbers]
  | var i key =>
    have number := h.number?_eq
    simp only [Tree.top] at number
    simp [Tree.descendants, number, Tree.term, Term.number?, Term.numbers]
  | unary i op t ih =>
    have number := h.number?_eq
    simp only [Tree.top] at number
    simp [Tree.descendants, ih h.2, number, Tree.term, Term.number?, Term.numbers]
  | binary i op s t ihs iht =>
    have number := h.number?_eq
    simp only [Tree.top] at number
    simp [Tree.descendants, ihs h.2.1, iht h.2.2, number, Tree.term, Term.number?, Term.numbers]

omit [Elementary] in
theorem Forest.Holds.liveNumbers_eq {m : Mark} {l : Tree} {ts : List Tree}
    (h : f.Holds m (some l) ts) : f.liveNumbers = l.term.numbers := by
  have root : f.root = some l.top := h.root
  rw [liveNumbers, root]
  simp only
  rw [descendantsFirst_eq h.fits_live]
  exact h.fits_live.numbers

/-- After simplification there are not more numbers of the kind. -/
theorem Forest.TreeShaped.countP_simplify (inherited : Inherited p) (sink : Sink σ) (notes : σ)
    (shaped : f.TreeShaped) :
    (Watch.outcome (Watch.simplify sink ⟨f, notes⟩)).2.liveNumbers.countP p ≤
      f.liveNumbers.countP p := by
  obtain ⟨live, holds⟩ := shaped.exists_holds
  cases live with
  | none =>
    rw [Watch.simplify_rootless sink notes holds.root]
    exact Nat.le_refl _
  | some l =>
    obtain ⟨u, g, notes', n, hg, term, held⟩ := Watch.simplify_spec sink notes holds
    rw [hg]
    change g.liveNumbers.countP p ≤ _
    rw [held.liveNumbers_eq, holds.liveNumbers_eq, term, settle_passLimit]
    exact Term.countP_pass inherited l.term

end Fluxion
