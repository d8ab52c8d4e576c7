import Fluxion.Journal.Sinks
import Fluxion.Proofs.Forest.Shape
import Fluxion.Proofs.Simplification.Pass
import Fluxion.Proofs.Simplification.Value

/-!
# Simplification keeps values

If no visit of a run replaces anything but what is exactly equal, the live expression has
the same value after the run as before, up to the sign of zero. The visits are those of the
run itself: the nodes in the order in which it comes to them, each with the forest at that
moment.
-/

namespace Fluxion

open Forest

theorem Forest.isFinite_of_number? {f : Forest} {i : Nat} {x : Float}
    (all : ∀ j < f.size, (f.number? j).all Float.isFinite = true)
    (h : f.cells[i]? = some (.number x)) : x.isFinite = true := by
  obtain ⟨lt, -⟩ := Array.getElem?_eq_some_iff.mp h
  have number : f.number? i = some x := by simp only [Forest.number?, h]
  simpa [number] using all i lt

theorem Tree.Fits.finite {f : Forest} {t : Tree} (h : t.Fits f.cells)
    (numbers : ∀ i ∈ t.nodes, ∀ x, f.cells[i]? = some (.number x) → x.isFinite = true)
    (values : ∀ i ∈ t.nodes, ∀ key x, f.cells[i]? = some (.var key) →
      f.registry.value key = .ok x → x.isFinite = true) : t.term.Finite f.registry := by
  induction t with
  | number i x => exact numbers i (by simp) x h
  | var i key => exact fun x => values i (by simp) key x h
  | unary i op t ih =>
    exact ih h.2 (fun j hj => numbers j (by simp [hj])) fun j hj => values j (by simp [hj])
  | binary i op s t ihs iht =>
    exact ⟨ihs h.2.1 (fun j hj => numbers j (by simp [hj])) fun j hj => values j (by simp [hj]),
      iht h.2.2 (fun j hj => numbers j (by simp [hj])) fun j hj => values j (by simp [hj])⟩

section

variable [Elementary] {σ : Type}

namespace Watch

/-- The visits of a sweep over `order`. -/
def sweepVisits (sink : Sink σ) : List Nat → Nat → Watched σ → List (Forest × Nat)
  | [], _, _ => []
  | i :: order, count, w =>
    (w.forest, i) ::
      match reduceNode sink count i w with
      | .ok count w => sweepVisits sink order count w
      | .error _ _ => []

/-- The visits of at most so many passes. -/
def visits (sink : Sink σ) : Nat → Watched σ → List (Forest × Nat)
  | 0, _ => []
  | passes + 1, w =>
    match w.forest.root with
    | none => []
    | some root =>
      sweepVisits sink (w.forest.descendantsFirst root) 0 w ++
        match simplifyPass sink w with
        | .ok count w => if count = 0 then [] else visits sink passes w
        | .error _ _ => []

end Watch

/-- If an identity applies at the node, the number that it takes for 0 or 1 is 0 or 1, and a
power of zero is replaced only if its exponent is positive. Where both operands are numbers
there is no question of an identity. -/
def Forest.ExactAt (f : Forest) (i : Nat) : Prop :=
  ∀ op a b, f.cells[i]? = some (.binary op a b) → f.number? a = none ∨ f.number? b = none →
    op.Exact (f.number? a) (f.number? b) (f.evaluate b)

instance Forest.decidableExactAt (f : Forest) (i : Nat) : Decidable (f.ExactAt i) :=
  match h : f.cells[i]? with
  | some (.binary op a b) =>
    decidable_of_iff (f.number? a = none ∨ f.number? b = none →
      op.Exact (f.number? a) (f.number? b) (f.evaluate b)) (by simp [ExactAt, h])
  | some (.number _) | some (.var _) | some (.unary _ _) | none =>
    isTrue (by simp [ExactAt, h])

variable {sink : Sink σ} {f : Forest} {m : Mark} {s t : Tree} {ts : List Tree} {k : Context}
  {w w' : Watched σ}

namespace Tree

theorem Fits.evaluate_eq (h : t.Fits f.cells) : f.evaluate t.top = t.term.value f.registry := by
  have present : f.absent? t.top = none := if_pos h.top_lt
  rw [evaluate, present, program_eq h]
  exact Algebra.run_program _ _

theorem Fits.exactTop (h : t.Fits f.cells) (exact : f.ExactAt t.top) :
    t.term.ExactTop f.registry := by
  have hc := h.cell
  cases t with
  | number i x => trivial
  | var i key => trivial
  | unary i op t => trivial
  | binary i op s t =>
    have exact := exact op s.top t.top hc
    rw [h.2.1.number?_eq, h.2.2.number?_eq, h.2.2.evaluate_eq] at exact
    rw [Tree.term, Term.ExactTop]
    split
    · trivial
    · next notBoth =>
      refine exact ?_
      cases hs : s.term.number? with
      | none => exact Or.inl rfl
      | some x =>
        cases ht : t.term.number? with
        | none => exact Or.inr rfl
        | some y => exact (notBoth x y hs ht).elim

end Tree

namespace Watch

theorem sweepVisits_append {order order' : List Nat} {count count' : Nat}
    (h : order.foldlM (reduceNode sink) count w = .ok count' w') :
    sweepVisits sink (order ++ order') count w =
      sweepVisits sink order count w ++ sweepVisits sink order' count' w' := by
  induction order generalizing count w with
  | nil =>
    cases h
    rfl
  | cons i order ih =>
    rw [List.cons_append, sweepVisits, sweepVisits, List.cons_append]
    rw [List.foldlM_cons] at h
    cases hi : reduceNode sink count i w with
    | error e w₁ =>
      rw [bind_error hi] at h
      cases h
    | ok count₁ w₁ =>
      rw [bind_ok hi] at h
      exact congrArg _ (ih h)

theorem mem_sweepVisits_singleton (sink : Sink σ) (i count : Nat) (w : Watched σ) :
    (w.forest, i) ∈ sweepVisits sink [i] count w :=
  List.mem_cons_self

/-- What the visits of a sweep have holds of the tops that the pass over the term comes to. -/
theorem everyTop_of_sweep {Q : Forest → Nat → Prop} {P : Term Key → Prop}
    (meets : ∀ {g : Forest} {u : Tree}, u.Fits g.cells → g.registry = m.registry → Q g u.top →
      P u.term)
    (sink : Sink σ) (count : Nat) (notes : σ) (held : f.Holds m (some (k.plug t)) ts)
    (all : ∀ visit ∈ sweepVisits sink t.descendants count ⟨f, notes⟩, Q visit.1 visit.2) :
    t.term.EveryTop P := by
  induction t generalizing k f count notes with
  | number i x => trivial
  | var i key => trivial
  | unary i op t ih =>
    obtain ⟨r, f₁, notes₁, h₁, term₁, held₁⟩ :=
      sweep_spec (k := .unary i op :: k) sink count notes held
    rw [Tree.descendants, sweepVisits_append h₁] at all
    refine ⟨ih (k := .unary i op :: k) count notes held ?_, ?_⟩
    · intro visit hv
      exact all visit (List.mem_append_left _ hv)
    · have fits := (Context.fits_plug (s := .unary i op r).mp held₁.fits_live).1
      have top := meets fits held₁.stands.registry
        (all _ (List.mem_append_right _ (mem_sweepVisits_singleton sink i _ _)))
      rw [Tree.term, term₁] at top
      exact top
  | binary i op s t ihs iht =>
    obtain ⟨r, f₁, notes₁, h₁, term₁, held₁⟩ :=
      sweep_spec (k := .right i op s :: k) sink count notes held
    obtain ⟨r', f₂, notes₂, h₂, term₂, held₂⟩ :=
      sweep_spec (k := .left i op r :: k) sink (count + t.term.passReductions) notes₁ held₁
    rw [Tree.descendants, List.append_assoc, sweepVisits_append h₁,
      sweepVisits_append h₂] at all
    refine ⟨iht (k := .right i op s :: k) count notes held ?_,
      ihs (k := .left i op r :: k) (count + t.term.passReductions) notes₁ held₁ ?_, ?_⟩
    · intro visit hv
      exact all visit (List.mem_append_left _ hv)
    · intro visit hv
      exact all visit (List.mem_append_right _ (List.mem_append_left _ hv))
    · have fits := (Context.fits_plug (s := .binary i op r' r).mp held₂.fits_live).1
      have top := meets fits held₂.stands.registry (all _ (List.mem_append_right _
        (List.mem_append_right _ (mem_sweepVisits_singleton sink i _ _))))
      rw [Tree.term, term₁, term₂] at top
      exact top

/-- If every visit of a sweep is exact, then the pass over the term is. -/
theorem everyTop_exactTop (sink : Sink σ) (count : Nat) (notes : σ)
    (held : f.Holds m (some (k.plug t)) ts)
    (allExact : ∀ visit ∈ sweepVisits sink t.descendants count ⟨f, notes⟩,
      visit.1.ExactAt visit.2) : t.term.EveryTop (Term.ExactTop m.registry) :=
  everyTop_of_sweep (fun fits same exact => same ▸ fits.exactTop exact) sink count notes held
    allExact

/-- The first visits are those of a sweep over the live tree. -/
theorem mem_visits_of_sweep {visit : Forest × Nat} {notes : σ} (passes : Nat)
    (held : f.Holds m (some t) ts) (h : visit ∈ sweepVisits sink t.descendants 0 ⟨f, notes⟩) :
    visit ∈ visits sink (passes + 1) ⟨f, notes⟩ := by
  have root : f.root = some t.top := held.root
  simp only [visits, root, descendantsFirst_eq held.fits_live]
  exact List.mem_append_left _ h

theorem exactSettle_of_visits (sink : Sink σ) (passes : Nat) (notes : σ)
    (held : f.Holds m (some t) ts)
    (allExact : ∀ visit ∈ visits sink passes ⟨f, notes⟩, visit.1.ExactAt visit.2) :
    t.term.ExactSettle m.registry passes := by
  induction passes generalizing t f notes with
  | zero => trivial
  | succ passes ih =>
    obtain ⟨r, g, notes', hg, term, held'⟩ := simplifyPass_spec sink notes held
    constructor
    · apply Term.exactPass_of_everyTop
      apply everyTop_exactTop (k := []) sink 0 notes held
      intro visit hv
      exact allExact visit (mem_visits_of_sweep passes held hv)
    · intro more
      have root : f.root = some t.top := held.root
      simp only [visits, root, hg] at allExact
      rw [← term]
      apply ih notes' held'
      intro visit hv
      apply allExact visit (List.mem_append_right _ _)
      rw [if_neg more]
      exact hv

end Watch

theorem Forest.Holds.value_eq (h : f.Holds m (some t) ts) : f.value = t.term.value f.registry := by
  have root : f.root = some t.top := h.root
  rw [Forest.value, root]
  exact h.fits_live.evaluate_eq

/-- Simplification keeps the value of the live expression, up to the sign of zero. -/
theorem simplify_value (lawful : Elementary.Lawful) (sink : Sink σ) (notes : σ) (f : Forest)
    (shaped : f.TreeShaped)
    (numbers : ∀ i x, f.Live i → f.cells[i]? = some (.number x) → x.isFinite = true)
    (values : ∀ i key x, f.Live i → f.cells[i]? = some (.var key) →
      f.registry.value key = .ok x → x.isFinite = true)
    (v : Float) (before : f.value = .ok v)
    (exact : ∀ visit ∈ Watch.visits sink f.passLimit ⟨f, notes⟩, visit.1.ExactAt visit.2) :
    ∃ (n : Nat) (g : Forest) (notes' : σ) (w : Float),
      Watch.simplify sink ⟨f, notes⟩ = .ok n ⟨g, notes'⟩ ∧ g.value = .ok w ∧
      (w == v) = true := by
  obtain ⟨live?, holds⟩ := shaped.exists_holds
  cases live? with
  | none =>
    have root : f.root = none := holds.root
    simp [value, root] at before
  | some t =>
    obtain ⟨r, g, notes', n, hg, term, held⟩ := Watch.simplify_spec sink notes holds
    have finite : t.term.Finite f.registry := by
      apply holds.fits_live.finite
      · intro i hi x
        exact numbers i x (holds.live_iff.mpr hi)
      · intro i hi key x
        exact values i key x (holds.live_iff.mpr hi)
    rw [holds.value_eq] at before
    obtain ⟨w, hw, agree⟩ := Term.value_settle lawful f.passLimit finite
      (Watch.exactSettle_of_visits sink f.passLimit notes holds exact) before
    refine ⟨n, g, notes', w, hg, ?_, agree.symm.beq (finite.value before)⟩
    rw [held.value_eq, held.stands.registry, term]
    exact hw

end

/-- The forest of `0 ^ x + x * 1`, where `x` is 3. -/
def sumWithPower : Forest where
  cells := #[.number 0, .var (.ofSymbol 'x'), .binary .pow 0 1, .var (.ofSymbol 'x'), .number 1,
    .binary .mul 3 4, .binary .add 2 5]
  parents := #[some 2, some 2, some 6, some 5, some 5, some 6, none]
  root := some 6
  registry := ⟨[⟨'x', some 3⟩]⟩

theorem sumWithPower_holds :
    sumWithPower.Holds ⟨sumWithPower.registry, 0⟩
      (some (.binary 6 .add (.binary 2 .pow (.number 0 0) (.var 1 (.ofSymbol 'x')))
        (.binary 5 .mul (.var 3 (.ofSymbol 'x')) (.number 4 1))))
      [] := by
  refine holds_of_tree rfl rfl ?_ ?_ rfl (by decide) (by decide)
  · exact ⟨rfl, ⟨rfl, rfl, rfl⟩, rfl, rfl, rfl⟩
  · exact ⟨rfl, rfl, ⟨rfl, rfl, trivial, trivial⟩, rfl, rfl, trivial, trivial⟩

theorem sumWithPower_numbers (i : Nat) (x : Float)
    (h : sumWithPower.cells[i]? = some (.number x)) : x.isFinite = true :=
  isFinite_of_number? (by decide) h

theorem sumWithPower_values (key : Key) (x : Float)
    (h : sumWithPower.registry.value key = .ok x) : x.isFinite = true := by
  simp only [Registry.value, Registry.find?, sumWithPower, List.find?_cons, List.find?_nil] at h
  split at h
  · simp at h
  · next e he =>
    split at he
    · cases he
      cases h
      rfl
    · simp at he

/-- Two identities apply in `0 ^ x + x * 1`, and then a third to what they leave. -/
theorem simplify_sumWithPower :
    @Elementary.Lawful .coarse ∧ sumWithPower.TreeShaped ∧
      @Forest.value .coarse sumWithPower = .ok 3 ∧
      ∃ (n : Nat) (g : Forest) (notes : Unit) (w : Float),
        @Watch.simplify .coarse Unit Sink.silent ⟨sumWithPower, ()⟩ = .ok n ⟨g, notes⟩ ∧
        @Forest.value .coarse g = .ok w ∧ (w == 3) = true := by
  have value : @Forest.value .coarse sumWithPower = .ok 3 := by decide +kernel
  have all : (@Watch.visits .coarse _ Sink.silent sumWithPower.passLimit ⟨sumWithPower, ()⟩).all
      (fun visit => @decide _ (@Forest.decidableExactAt .coarse visit.1 visit.2)) = true := by
    decide +kernel
  have exact : ∀ visit ∈ @Watch.visits .coarse _ Sink.silent sumWithPower.passLimit
      ⟨sumWithPower, ()⟩, @Forest.ExactAt .coarse visit.1 visit.2 := fun visit hv =>
    @of_decide_eq_true _ (@Forest.decidableExactAt .coarse visit.1 visit.2)
      (List.all_eq_true.mp all visit hv)
  refine ⟨Elementary.coarse_lawful, sumWithPower_holds.treeShaped, value, ?_⟩
  exact @simplify_value .coarse _ Elementary.coarse_lawful Sink.silent () sumWithPower
    sumWithPower_holds.treeShaped (fun i x _ => sumWithPower_numbers i x)
    (fun _ key x _ _ => sumWithPower_values key x) 3 value exact

end Fluxion
