import Fluxion.Proofs.Forest.Compaction
import Fluxion.Proofs.Simplification.OnePass

/-!
# Normal forms

What simplification leaves is in normal form: nothing in the live expression can be folded, and
no identity applies. From then on simplification does nothing, nor does it after compaction,
which keeps the live expression.
-/

namespace Fluxion

open Forest

section

variable [Elementary] {σ : Type} {f : Forest} {m : Mark} {s t : Tree} {ts : List Tree}
  {k : Context}

/-- Live operators of numbers raise a signal, and no identity accepts the operands of another
live operator. -/
structure Forest.Normal (f : Forest) : Prop where
  unary : ∀ i op a x, f.Live i → f.cells[i]? = some (.unary op a) → f.number? a = some x →
    ∃ e, op.apply x = .error e
  binary : ∀ i op a b x y, f.Live i → f.cells[i]? = some (.binary op a b) →
    f.number? a = some x → f.number? b = some y → ∃ e, op.apply x y = .error e
  identities : ∀ i op a b, f.Live i → f.cells[i]? = some (.binary op a b) →
    f.number? a = none ∨ f.number? b = none →
    ∀ e ∈ op.identities, e.accepts (f.number? a) (f.number? b) = false

/-- If no live node reduces to anything, what is live is in normal form. -/
theorem Forest.normal_of_reduct? (rest : ∀ i, f.Live i → ∀ r, f.reduct? i ≠ .ok (some r)) :
    f.Normal where
  unary i op a x live cell number := by
    have rest := rest i live
    simp only [reduct?, cell, number] at rest
    cases applied : op.apply x with
    | error e => exact ⟨e, rfl⟩
    | ok v => exact absurd (by rw [applied]; rfl) (rest (.number v))
  binary i op a b x y live cell numberLeft numberRight := by
    have rest := rest i live
    simp only [reduct?, cell, numberLeft, numberRight] at rest
    cases applied : op.apply x y with
    | error e => exact ⟨e, rfl⟩
    | ok v => exact absurd (by rw [applied]; rfl) (rest (.number v))
  identities i op a b live cell notBoth e he := by
    have rest := rest i live
    have reduct : f.reduct? i =
        .ok ((op.identity? (f.number? a) (f.number? b)).map (.ofRemainder a b)) := by
      simp only [reduct?, cell]
      grind
    rw [reduct, op.identity?_eq] at rest
    cases accepted : op.accepted? (f.number? a) (f.number? b) with
    | some e' => exact absurd (by rw [accepted]; rfl) (rest (.ofRemainder a b e'.remainder))
    | none => simpa using List.find?_eq_none.mp accepted e he

namespace Term

variable {ν : Type} {t : Term ν}

/-- Where a pass replaces nothing, the visit of the top does not either. -/
theorem reductions_of_passReductions (rest : t.passReductions = 0) : t.reductions = 0 := by
  cases t with
  | number x => rfl
  | var n => rfl
  | unary op t =>
    rw [passReductions, Nat.add_eq_zero_iff] at rest
    rw [← pass_of_passReductions rest.1]
    exact rest.2
  | binary op s t =>
    rw [passReductions, Nat.add_eq_zero_iff, Nat.add_eq_zero_iff] at rest
    rw [← pass_of_passReductions rest.1.1, ← pass_of_passReductions rest.1.2]
    exact rest.2

end Term

/-- Where a pass replaces nothing, it replaces nothing in any part. -/
theorem Context.passReductions_part (rest : (k.plug s).term.passReductions = 0) :
    s.term.passReductions = 0 := by
  induction k generalizing s with
  | nil => exact rest
  | cons c k ih =>
    have filled := ih rest
    cases c with
    | unary i op => exact (Nat.add_eq_zero_iff.mp filled).1
    | left i op t => exact (Nat.add_eq_zero_iff.mp (Nat.add_eq_zero_iff.mp filled).1).2
    | right i op r => exact (Nat.add_eq_zero_iff.mp (Nat.add_eq_zero_iff.mp filled).1).1

theorem Forest.Holds.normal (held : f.Holds m (some t) ts) (rest : t.term.passReductions = 0) :
    f.Normal := by
  apply normal_of_reduct?
  intro i live r reduct
  obtain ⟨k, s, rfl, rfl⟩ := Tree.exists_plug (held.live_iff.mp live)
  have part := (Context.fits_plug.mp held.fits_live).1
  have top := Term.reductions_of_passReductions (Context.passReductions_part rest)
  rcases part.reduct?_of_reductions top with none | ⟨e, failed⟩
  · rw [none] at reduct
    cases reduct
  · rw [failed] at reduct
    cases reduct

omit [Elementary] in
/-- However often it is compacted, a forest keeps its live expression. -/
theorem Forest.Holds.compact_iterate (held : f.Holds m (some t) []) (n : Nat) :
    ∃ m' u, u.term = t.term ∧ (Forest.compact^[n] f).Holds m' (some u) [] := by
  induction n with
  | zero => exact ⟨m, t, rfl, held⟩
  | succ n ih =>
    obtain ⟨m', u, term, held⟩ := ih
    obtain ⟨v, term', held⟩ := held.compact 0
    refine ⟨⟨m'.registry, 0⟩, v, term'.trans term, ?_⟩
    rw [Function.iterate_succ_apply']
    exact held

/-- What simplification leaves is in normal form, and is left as it is when simplification is
repeated, also after any number of compactions. -/
theorem simplify_normal (sink : Sink σ) (notes : σ) (f : Forest) (shaped : f.TreeShaped) :
    ((∃ r, f.root = some r) →
      ∃ n g notes', Watch.simplify sink ⟨f, notes⟩ = .ok n ⟨g, notes'⟩) ∧
    ∀ n g notes', Watch.simplify sink ⟨f, notes⟩ = .ok n ⟨g, notes'⟩ →
      g.Normal ∧ ∀ (times : Nat) (τ : Type) (again : Sink τ) (later : τ),
        ∃ later', Watch.simplify again ⟨Forest.compact^[times] g, later⟩ =
          .ok 0 ⟨Forest.compact^[times] g, later'⟩ := by
  obtain ⟨live, held⟩ := shaped.exists_holds
  cases live with
  | none =>
    have rootless : f.root = none := held.root
    constructor
    · rintro ⟨r, root⟩
      rw [rootless] at root
      cases root
    · intro n g notes' done
      rw [Watch.simplify_rootless sink notes rootless] at done
      cases done
  | some t =>
    obtain ⟨u, g, notes', n, done, term, after⟩ := Watch.simplify_spec sink notes held
    have rest : u.term.passReductions = 0 := by
      rw [term, f.settle_passLimit, Term.passReductions_pass]
    refine ⟨fun _ => ⟨n, g, notes', done⟩, ?_⟩
    intro n' g' notes'' done'
    cases done.symm.trans done'
    refine ⟨after.normal rest, ?_⟩
    intro times τ again later
    obtain ⟨m', v, same, held⟩ := after.compact_iterate times
    exact Watch.simplify_rest again later held (same ▸ rest)

end

/-- The forest of `(x + 0) - 1 / 0`. -/
def sumMinusPole : Forest where
  cells := #[.var (.ofSymbol 'x'), .number 0, .binary .add 0 1, .number 1, .number 0,
    .binary .div 3 4, .binary .sub 2 5]
  parents := #[some 2, some 2, some 6, some 5, some 5, some 6, none]
  root := some 6
  registry := ⟨[⟨'x', none⟩]⟩

theorem sumMinusPole_holds :
    sumMinusPole.Holds ⟨sumMinusPole.registry, 0⟩
      (some (.binary 6 .sub (.binary 2 .add (.var 0 (.ofSymbol 'x')) (.number 1 0))
        (.binary 5 .div (.number 3 1) (.number 4 0)))) [] := by
  refine holds_of_tree rfl rfl ?_ ?_ rfl (by decide) (by decide)
  · exact ⟨rfl, ⟨rfl, rfl, rfl⟩, rfl, rfl, rfl⟩
  · exact ⟨rfl, rfl, ⟨rfl, rfl, trivial, trivial⟩, rfl, rfl, trivial, trivial⟩

/-- The sum is left by its operand, and the quotient stays although its divisor is a number. -/
theorem simplify_normal_sumMinusPole :
    sumMinusPole.TreeShaped ∧ (∃ r, sumMinusPole.root = some r) ∧
      ∃ (n : Nat) (g : Forest),
        @Watch.simplify .coarse Unit Sink.silent ⟨sumMinusPole, ()⟩ = .ok n ⟨g, ()⟩ ∧
        @Forest.Normal .coarse g ∧
        @Watch.simplify .coarse Unit Sink.silent ⟨g.compact.compact, ()⟩ =
          .ok 0 ⟨g.compact.compact, ()⟩ := by
  have shaped := sumMinusPole_holds.treeShaped
  obtain ⟨ends, settled⟩ := @simplify_normal .coarse Unit Sink.silent () sumMinusPole shaped
  obtain ⟨n, g, notes, done⟩ := ends ⟨6, rfl⟩
  obtain ⟨normal, rest⟩ := settled n g notes done
  obtain ⟨later, again⟩ := rest 2 Unit Sink.silent ()
  exact ⟨shaped, ⟨6, rfl⟩, n, g, done, normal, again⟩

end Fluxion
