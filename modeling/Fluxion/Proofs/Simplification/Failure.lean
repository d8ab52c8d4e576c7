import Fluxion.Journal.Sinks
import Fluxion.Proofs.Forest.Building
import Fluxion.Proofs.Forest.Variables
import Fluxion.Proofs.Simplification.Preservation
import Fluxion.Proofs.Simplification.Sparing

/-!
# Simplification keeps failures

A live expression whose evaluation raises a signal still raises one after simplification, if
no visit of the run drops an operand that fails, drops an operation on a subnormal number, or
replaces anything but what is exactly equal. Each of these can hide a failure.
-/

namespace Fluxion

open Forest

section

variable {f : Forest} {t : Tree} {m : Mark} {ts : List Tree}

/-! ### Values of variables -/

/-- Every live number is finite, and every live variable has a finite value. -/
structure Forest.Supplied (f : Forest) : Prop where
  number : ∀ i x, f.Live i → f.cells[i]? = some (.number x) → x.isFinite = true
  value : ∀ i key, f.Live i → f.cells[i]? = some (.var key) →
    ∃ x, f.registry.value key = .ok x ∧ x.isFinite = true

theorem Forest.Supplied.finite (h : f.Supplied) (holds : f.Holds m (some t) ts) :
    t.term.Finite f.registry := by
  apply holds.fits_live.finite
  · intro i hi x cell
    exact h.number i x (holds.live_iff.mpr hi) cell
  · intro i hi key x cell hx
    obtain ⟨y, hy, finite⟩ := h.value i key (holds.live_iff.mpr hi) cell
    rw [hx, Except.ok.injEq] at hy
    exact hy ▸ finite

theorem Forest.Supplied.exists_value (h : f.Supplied) (holds : f.Holds m (some t) ts) {key : Key}
    (hk : key ∈ t.term.names) : ∃ x, f.registry.value key = .ok x := by
  obtain ⟨i, live, cell⟩ := holds.mem_liveKeys.mpr hk
  obtain ⟨x, hx, -⟩ := h.value i key live cell
  exact ⟨x, hx⟩

def Cell.supplied (r : Registry) : Cell → Bool
  | .number x => x.isFinite
  | .var key =>
    match r.value key with
    | .ok x => x.isFinite
    | .error _ => false
  | .unary _ _ | .binary _ _ _ => true

theorem Forest.supplied_of_all (h : f.cells.all (Cell.supplied f.registry) = true) :
    f.Supplied := by
  have cells {i : Nat} {c : Cell} (hc : f.cells[i]? = some c) : c.supplied f.registry = true := by
    obtain ⟨lt, rfl⟩ := Array.getElem?_eq_some_iff.mp hc
    exact Array.all_eq_true.mp h i lt
  constructor
  · intro i x _ cell
    exact cells cell
  · intro i key _ cell
    have known := cells cell
    rw [Cell.supplied] at known
    split at known
    · next x hx => exact ⟨x, hx, known⟩
    · cases known

/-- The forest of a term in `x`, where the value of `x` is `a`. -/
def Forest.ofTermAt (t : Term Char) (a : Float) : Forest :=
  match ofTerm t with
  | .ok f => { f with registry := ⟨[⟨'x', some a⟩]⟩ }
  | .error _ => {}

theorem Forest.ofTermAt_treeShaped (t : Term Char) (a : Float) : (ofTermAt t a).TreeShaped := by
  obtain ⟨u, f, made, -, held⟩ := ofTerm_ok t
  rw [ofTermAt, made]
  exact (held.reregister _).treeShaped

end

section

variable [Elementary] {σ : Type} {r : Registry} {f : Forest} {s t : Tree} {m : Mark}
  {ts : List Tree}

/-! ### Sparing visits -/

/-- If an identity applies at the node, both operands have values, unless one of them is kept:
then that one has no subnormal value. -/
def Forest.SparesAt (f : Forest) (i : Nat) : Prop :=
  ∀ op a b, f.cells[i]? = some (.binary op a b) → f.number? a = none ∨ f.number? b = none →
    op.Spares (f.number? a) (f.number? b) (f.evaluate a) (f.evaluate b)

instance Forest.decidableSparesAt (f : Forest) (i : Nat) : Decidable (f.SparesAt i) :=
  match h : f.cells[i]? with
  | some (.binary op a b) =>
    decidable_of_iff (f.number? a = none ∨ f.number? b = none →
      op.Spares (f.number? a) (f.number? b) (f.evaluate a) (f.evaluate b)) (by simp [SparesAt, h])
  | some (.number _) | some (.var _) | some (.unary _ _) | none =>
    isTrue (by simp [SparesAt, h])

theorem Tree.Fits.sparesTop (h : t.Fits f.cells) (spares : f.SparesAt t.top) :
    t.term.SparesTop f.registry := by
  have hc := h.cell
  cases t with
  | number i x => trivial
  | var i key => trivial
  | unary i op t => trivial
  | binary i op s t =>
    have spares := spares op s.top t.top hc
    rw [h.2.1.number?_eq, h.2.2.number?_eq, h.2.1.evaluate_eq, h.2.2.evaluate_eq] at spares
    exact spares

theorem Watch.everyTop_sparesTop (sink : Sink σ) (count : Nat) (notes : σ) {k : Context}
    (held : f.Holds m (some (k.plug t)) ts)
    (spares : ∀ visit ∈ sweepVisits sink t.descendants count ⟨f, notes⟩,
      visit.1.SparesAt visit.2) : t.term.EveryTop (Term.SparesTop m.registry) :=
  everyTop_of_sweep (fun fits same spares => same ▸ fits.sparesTop spares) sink count notes held
    spares

/-! ### Failures -/

theorem Forest.exists_root_of_numeric {cause : NumericFault}
    (h : f.value = .error (.numeric cause)) : ∃ i, f.root = some i := by
  cases root : f.root with
  | none => simp [value, root] at h
  | some i => exact ⟨i, rfl⟩

/-- A live expression in which a signal is raised still raises one after simplification. -/
theorem simplify_failure (lawful : Elementary.Lawful) (sink : Sink σ) (notes : σ) (f : Forest)
    (shaped : f.TreeShaped) (supplied : f.Supplied) (cause : NumericFault)
    (before : f.value = .error (.numeric cause))
    (exact : ∀ visit ∈ Watch.visits sink f.passLimit ⟨f, notes⟩, visit.1.ExactAt visit.2)
    (spares : ∀ visit ∈ Watch.visits sink f.passLimit ⟨f, notes⟩, visit.1.SparesAt visit.2) :
    ∃ (n : Nat) (g : Forest) (notes' : σ) (cause' : NumericFault),
      Watch.simplify sink ⟨f, notes⟩ = .ok n ⟨g, notes'⟩ ∧ g.registry = f.registry ∧
      g.value = .error (.numeric cause') := by
  obtain ⟨t, holds⟩ := shaped.exists_holds_some (exists_root_of_numeric before)
  obtain ⟨u, g, notes', n, hg, term, held⟩ := Watch.simplify_spec sink notes holds
  have same : g.registry = f.registry := held.stands.registry
  have after : g.value = t.term.pass.value f.registry := by
    rw [held.value_eq, same, term, settle_passLimit]
  cases result : t.term.pass.value f.registry with
  | error e =>
    obtain ⟨cause', rfl⟩ := Term.numeric_of_value
      (fun key hk => supplied.exists_value holds (Term.names_pass_subset _ hk)) result
    exact ⟨n, g, notes', cause', hg, same, after.trans result⟩
  | ok w =>
    -- then there was a value before
    obtain ⟨passes, limit⟩ := f.exists_passLimit
    rw [limit] at exact spares
    have exactTops := Watch.everyTop_exactTop (k := []) sink 0 notes holds
      fun visit hv => exact visit (Watch.mem_visits_of_sweep passes holds hv)
    have sparesTops := Watch.everyTop_sparesTop (k := []) sink 0 notes holds
      fun visit hv => spares visit (Watch.mem_visits_of_sweep passes holds hv)
    obtain ⟨v, hv⟩ := Term.exists_value_of_pass lawful (supplied.finite holds) exactTops
      sparesTops result
    rw [holds.value_eq, hv] at before
    cases before

end

/-- In `0 ^ x + x * 1 / (x - 3)`, where `x` is 3, two identities apply and then a third to what
they leave. The quotient still fails. -/
theorem simplify_failure_quotient :
    let := Elementary.coarse
    let f := ofTermAt (.binary .add (.binary .pow (.number 0) (.var 'x'))
      (.binary .div (.binary .mul (.var 'x') (.number 1)) (.binary .sub (.var 'x') (.number 3)))) 3
    Elementary.Lawful ∧ f.TreeShaped ∧ f.Supplied ∧
      f.value = .error (.numeric ⟨.binary .div, 3, some 0, .divisionByZero⟩) ∧
      ∃ (n : Nat) (g : Forest) (notes : Unit) (cause : NumericFault),
        Watch.simplify Sink.silent ⟨f, ()⟩ = .ok n ⟨g, notes⟩ ∧ g.registry = f.registry ∧
        g.value = .error (.numeric cause) := by
  intro inst f
  have shaped : f.TreeShaped := ofTermAt_treeShaped _ 3
  have supplied : f.Supplied := supplied_of_all (by decide +kernel)
  have before : f.value = .error (.numeric ⟨.binary .div, 3, some 0, .divisionByZero⟩) := by
    decide +kernel
  have all : (Watch.visits Sink.silent f.passLimit ⟨f, ()⟩).all
      (fun visit => decide (visit.1.ExactAt visit.2 ∧ visit.1.SparesAt visit.2)) = true := by
    decide +kernel
  have visits (visit) (hv : visit ∈ Watch.visits Sink.silent f.passLimit ⟨f, ()⟩) :
      visit.1.ExactAt visit.2 ∧ visit.1.SparesAt visit.2 :=
    of_decide_eq_true (List.all_eq_true.mp all visit hv)
  exact ⟨Elementary.coarse_lawful, shaped, supplied, before,
    simplify_failure Elementary.coarse_lawful Sink.silent () f shaped supplied _ before
      (fun visit hv => (visits visit hv).1) fun visit hv => (visits visit hv).2⟩

/-! ### Hidden failures -/

section

variable [Elementary] {f : Forest}

/-- A signal is raised before simplification, and there is a value after it. -/
def Forest.HidesFailure (f : Forest) : Prop :=
  f.TreeShaped ∧ f.Supplied ∧ (∃ cause, f.value = .error (.numeric cause)) ∧
    ∃ n g v, Watch.simplify Sink.silent ⟨f, ()⟩ = .ok n ⟨g, ()⟩ ∧ g.registry = f.registry ∧
      g.value = .ok v

theorem Forest.hidesFailure {v : Float} (shaped : f.TreeShaped) (supplied : f.Supplied)
    (cause : NumericFault) (before : f.value = .error (.numeric cause))
    (after : (match Watch.simplify Sink.silent ⟨f, ()⟩ with
      | .ok _ w => w.forest.value
      | .error e _ => .error e) = .ok v) : f.HidesFailure := by
  obtain ⟨t, holds⟩ := shaped.exists_holds_some (exists_root_of_numeric before)
  obtain ⟨u, g, notes', n, hg, -, held⟩ := Watch.simplify_spec Sink.silent () holds
  rw [hg] at after
  exact ⟨shaped, supplied, ⟨cause, before⟩, n, g, v, hg, held.stands.registry, after⟩

end

namespace Forest

/-- What hides a failure: zero times a reciprocal, a factor close to one, a power of zero, and a
sum with zero that is subnormal. -/
theorem not_simplify_failure :
    @HidesFailure .coarse
        (ofTermAt (.binary .mul (.number 0) (.binary .div (.number 1) (.var 'x'))) 0) ∧
      @HidesFailure .coarse
        (ofTermAt (.binary .mul (.var 'x') (.number 1.0000000001)) 1.7976931348623157e308) ∧
      @HidesFailure .coarse
        (ofTermAt (.binary .div (.number 1) (.binary .sub (.number 1)
          (.binary .pow (.number 0) (.var 'x')))) 0) ∧
      @HidesFailure .coarse (ofTermAt (.binary .add (.var 'x') (.number 0)) 5e-324) := by
  let := Elementary.coarse
  refine ⟨?_, ?_, ?_, ?_⟩
  · exact hidesFailure (v := 0) (ofTermAt_treeShaped _ _) (supplied_of_all (by decide +kernel))
      ⟨.binary .div, 1, some 0, .divisionByZero⟩ (by decide +kernel) (by decide +kernel)
  · exact hidesFailure (v := 1.7976931348623157e308) (ofTermAt_treeShaped _ _)
      (supplied_of_all (by decide +kernel))
      ⟨.binary .mul, 1.7976931348623157e308, some 1.0000000001, .overflow⟩
      (by decide +kernel) (by decide +kernel)
  · exact hidesFailure (v := 1) (ofTermAt_treeShaped _ _) (supplied_of_all (by decide +kernel))
      ⟨.binary .div, 1, some 0, .divisionByZero⟩ (by decide +kernel) (by decide +kernel)
  · exact hidesFailure (v := 5e-324) (ofTermAt_treeShaped _ _)
      (supplied_of_all (by decide +kernel)) ⟨.binary .add, 5e-324, some 0, .underflow⟩
      (by decide +kernel) (by decide +kernel)

end Forest

end Fluxion
