import Fluxion.Proofs.Forest.Variables
import Fluxion.Proofs.Simplification.OnePass

/-!
# Simplification of closed expressions

An expression without variables that has a value is folded to this value, to the last bit.
Folding comes first at every operator, so no identity takes part, however close to 0 or 1 the
numbers are that occur on the way.
-/

namespace Fluxion

open Forest

/-- How many operators the term has. -/
def Term.operations {ν : Type} : Term ν → Nat
  | number _ | var _ => 0
  | unary _ t => t.operations + 1
  | binary _ s t => s.operations + t.operations + 1

theorem Tree.length_operators (t : Tree) : t.operators.length = t.term.operations := by
  induction t with
  | number i x => rfl
  | var i key => rfl
  | unary i op t ih => simp [operators, term, Term.operations, ih]
  | binary i op s t ihs iht =>
    simp only [operators, term, Term.operations, List.length_append, List.length_singleton, ihs,
      iht]
    omega

section

variable [Elementary] {σ : Type}

/-- A pass over a closed term computes its value, with a replacement for each operator. -/
theorem Term.pass_of_value {r : Registry} {t : Term Key} {v : Float} (closed : t.names = [])
    (value : t.value r = .ok v) : t.pass = number v ∧ t.passReductions = t.operations := by
  induction t generalizing v with
  | number x =>
    cases value
    exact ⟨rfl, rfl⟩
  | var key => cases closed
  | unary op t ih =>
    obtain ⟨x, operand, applied⟩ := value_unary.mp value
    obtain ⟨pass, count⟩ := ih closed operand
    have left : (unary op (number x) : Term Key).remainder? = .ok (some (.constant v)) := by
      simp only [remainder?, number?, applied, Except.map]
    rw [Term.pass, passReductions, pass, count, reduce, reductions, left]
    exact ⟨rfl, rfl⟩
  | binary op s t ihs iht =>
    obtain ⟨x, y, left, right, applied⟩ := value_binary.mp value
    obtain ⟨closedLeft, closedRight⟩ := List.append_eq_nil_iff.mp closed
    obtain ⟨passLeft, countLeft⟩ := ihs closedLeft left
    obtain ⟨passRight, countRight⟩ := iht closedRight right
    have left : (binary op (number x) (number y) : Term Key).remainder? =
        .ok (some (.constant v)) := by
      simp only [remainder?, number?, applied, Except.map]
    rw [Term.pass, passReductions, passLeft, passRight, countLeft, countRight, reduce, reductions,
      left]
    exact ⟨rfl, congrArg (· + 1) (Nat.add_comm _ _)⟩

/-- A closed live expression that has a value is simplified to a single number, which is the
value, by as many replacements as it has operators. -/
theorem simplify_closed (sink : Sink σ) (notes : σ) (f : Forest) (shaped : f.TreeShaped)
    (closed : f.liveKeys = ∅) (v : Float) (value : f.value = .ok v) :
    ∃ (g : Forest) (notes' : σ) (r : Nat),
      Watch.simplify sink ⟨f, notes⟩ = .ok f.liveOperators.length ⟨g, notes'⟩ ∧
      g.root = some r ∧ g.cells[r]? = some (.number v) ∧ ∀ i, g.Live i ↔ i = r := by
  obtain ⟨live, held⟩ := shaped.exists_holds
  cases live with
  | none =>
    have root : f.root = none := held.root
    simp [Forest.value, root] at value
  | some t =>
    have names : t.term.names = [] := by
      rw [List.eq_nil_iff_forall_not_mem]
      intro key mem
      have := held.mem_liveKeys.mpr mem
      rw [closed] at this
      exact this
    rw [held.value_eq] at value
    obtain ⟨pass, count⟩ := t.term.pass_of_value names value
    obtain ⟨u, g, notes₁, first, term, after⟩ := Watch.simplifyPass_spec sink notes held
    have settled : u.term.passReductions = 0 := by rw [term, Term.passReductions_pass]
    obtain ⟨notes', simplified⟩ := Watch.simplify_of_first held after settled first
    rw [count, ← t.length_operators, ← held.liveOperators_eq] at simplified
    rw [pass] at term
    cases u with
    | number i x =>
      cases term
      refine ⟨g, notes', i, simplified, after.root, after.fits_live, ?_⟩
      intro j
      rw [after.live_iff, Tree.nodes_number, List.mem_singleton]
    | var i key => cases term
    | unary i op u => cases term
    | binary i op u u' => cases term

end

/-- The forest of `(1e-10 * 5) / 1e-10`. -/
def smallQuotient : Forest where
  cells := #[.number 1e-10, .number 5, .binary .mul 0 1, .number 1e-10, .binary .div 2 3]
  parents := #[some 2, some 2, some 4, some 4, none]
  root := some 4

theorem smallQuotient_holds :
    smallQuotient.Holds ⟨{}, 0⟩
      (some (.binary 4 .div (.binary 2 .mul (.number 0 1e-10) (.number 1 5)) (.number 3 1e-10)))
      [] := by
  refine holds_of_tree rfl rfl ?_ ?_ rfl (by decide) (by decide)
  · exact ⟨rfl, ⟨rfl, rfl, rfl⟩, rfl⟩
  · exact ⟨rfl, rfl, ⟨rfl, rfl, trivial, trivial⟩, trivial⟩

/-- A number so close to 0 that an identity would take it for 0 is a factor, and still the result
is 5. -/
theorem simplify_closed_smallQuotient :
    smallQuotient.TreeShaped ∧ smallQuotient.liveKeys = ∅ ∧
      near 0 (some 1e-10) = true ∧ @Forest.value .coarse smallQuotient = .ok 5 ∧
      ∃ (g : Forest) (notes : Unit) (r : Nat),
        @Watch.simplify .coarse Unit Sink.silent ⟨smallQuotient, ()⟩ = .ok 2 ⟨g, notes⟩ ∧
        g.root = some r ∧ g.cells[r]? = some (.number 5) ∧ ∀ i, g.Live i ↔ i = r := by
  have shaped := smallQuotient_holds.treeShaped
  have closed : smallQuotient.liveKeys = ∅ := by
    rw [Set.eq_empty_iff_forall_notMem]
    intro key mem
    exact absurd (smallQuotient_holds.mem_liveKeys.mp mem) (List.not_mem_nil)
  have value : @Forest.value .coarse smallQuotient = .ok 5 := by decide
  exact ⟨shaped, closed, by decide, value,
    @simplify_closed .coarse Unit Sink.silent () smallQuotient shaped closed 5 value⟩

end Fluxion
