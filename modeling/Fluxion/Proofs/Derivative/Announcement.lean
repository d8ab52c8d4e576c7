import Fluxion.Proofs.Derivative.Expansion
import Fluxion.Proofs.Derivative.Outcomes
import Fluxion.Proofs.Notes

/-!
# The polynomial that is announced

An expansion is the simplified and compacted sum of the terms that its values call for, in a
forest that knows no variable but its own. If an order has no value, the expansion fails as the
first such order does, and that is reported once.
-/

namespace Fluxion

/-! ### The sum -/

namespace Expansion

/-- The terms added up from left to right; zero if there are none. -/
def leftSum : List (Term Char) → Term Char
  | [] => .number 0
  | t :: ts => ts.foldl (.binary .add) t

/-- `k!`, multiplied from 1 upwards. -/
def product (k : Nat) : Float := (List.range k).foldl (fun p j => p * Float.ofNat (j + 1)) 1

/-- The sum over `k < n` of `v k / k! * (x - c) ^ k`. -/
def announced (symbol : Char) (center : Float) (v : Nat → Float) (n : Nat) : Term Char :=
  leftSum ((List.range n).map fun k =>
    .binary .mul (.binary .div (.number (v k)) (.number (product k)))
      (.binary .pow (.binary .sub (.var symbol) (.number center)) (.number (Float.ofNat k))))

variable {symbol : Char} {center : Float} {v : Nat → Float}

theorem factorial_eq_product (k : Nat) : factorial k = product k := by
  induction k with
  | zero => rfl
  | succ k ih =>
    rw [factorial, ih, product, product, List.range_succ, List.foldl_append]
    rfl

theorem addTerms_eq_foldl (n k : Nat) (sum : Term Char) :
    addTerms symbol center k sum ((List.range' k n).map v) =
      ((List.range' k n).map fun j => term symbol center j (v j)).foldl (.binary .add) sum := by
  induction n generalizing k sum with
  | zero => rfl
  | succ n ih =>
    rw [List.range'_succ, List.map_cons, List.map_cons, addTerms, List.foldl_cons]
    exact ih (k + 1) _

theorem polynomial_eq_announced (n : Nat) :
    polynomial symbol center ((List.range n).map v) = announced symbol center v n := by
  have summands : announced symbol center v n =
      leftSum ((List.range n).map fun k => term symbol center k (v k)) := by
    simp only [announced, term, factorial_eq_product]
  rw [summands, List.range_eq_range']
  cases n with
  | zero => rfl
  | succ n =>
    rw [List.range'_succ, List.map_cons, List.map_cons]
    exact addTerms_eq_foldl n 1 _

theorem eq_of_mem_names_term {k : Nat} {x : Float} {c : Char}
    (h : c ∈ (term symbol center k x).names) : c = symbol := by
  simpa [term, Term.names] using h

theorem eq_of_mem_names_addTerms {vs : List Float} {k : Nat} {sum : Term Char}
    (first : ∀ c ∈ sum.names, c = symbol) :
    ∀ c ∈ (addTerms symbol center k sum vs).names, c = symbol := by
  induction vs generalizing k sum with
  | nil => exact first
  | cons x vs ih =>
    apply ih
    rw [Term.names, List.forall_mem_append]
    exact ⟨first, fun c => eq_of_mem_names_term⟩

/-- The polynomial has no other variable. -/
theorem eq_of_mem_names_polynomial (vs : List Float) :
    ∀ c ∈ (polynomial symbol center vs).names, c = symbol := by
  cases vs with
  | nil => simp [polynomial, Term.names]
  | cons x vs => exact eq_of_mem_names_addTerms fun c => eq_of_mem_names_term

theorem foldl_register_polynomial (vs : List Float) :
    (polynomial symbol center vs).names.foldl Registry.register (({} : Registry).register symbol) =
      ⟨[⟨symbol, none⟩]⟩ := by
  have again : Registry.register ⟨[⟨symbol, none⟩]⟩ symbol = ⟨[⟨symbol, none⟩]⟩ := by
    simp [Registry.register, Registry.findSymbol?, Registry.find?, Entry.key]
  have only : ∀ c ∈ (polynomial symbol center vs).names, c = symbol :=
    eq_of_mem_names_polynomial vs
  generalize (polynomial symbol center vs).names = names at only
  change names.foldl Registry.register ⟨[⟨symbol, none⟩]⟩ = _
  induction names with
  | nil => rfl
  | cons c names ih =>
    rw [List.forall_mem_cons] at only
    rw [List.foldl_cons, only.1, again, ih only.2]

end Expansion

section

variable [Elementary] {σ : Type} {sink : Sink σ} {f : Forest} {m : Mark} {l : Tree}
  {ts : List Tree} {symbol : Char} {center : Float} {r : Registry} {e : Fault}

/-! ### The values of the orders -/

namespace Forest

/-- The simplified expression, or the derivative of order `k` in the list of the first `k`. -/
def nthTree (f : Forest) (symbol : Char) : Nat → Except Fault Forest
  | 0 =>
    match Watch.simplify Sink.silent ⟨f, ()⟩ with
    | .ok _ w => .ok w.forest
    | .error e _ => .error e
  | k + 1 =>
    match f.derivatives Sink.silent symbol (k + 1) () with
    | .ok gs _ => gs[k]?.elim (.error .missingNode) .ok
    | .error e _ => .error e

/-- Its value with the symbol at the centre and all other variables as they are in `f`. -/
def nthValue (f : Forest) (symbol : Char) (center : Float) (k : Nat) : Except Fault Float :=
  match f.registry.assign? symbol center with
  | some r => do
    let g ← f.nthTree symbol k
    { g with registry := r }.value
  | none => .error (.undefined symbol)

theorem Holds.nthTree_ok (h : f.Holds m (some l) ts) (defined : m.Defines symbol) (k : Nat) :
    ∃ g u us, f.nthTree symbol k = .ok g ∧
      u.term = (Term.slope (.ofSymbol symbol))^[k] l.term.pass ∧ g.Holds m (some u) us := by
  cases k with
  | zero =>
    obtain ⟨u, g, notes, total, made, term, held⟩ := Watch.simplify_spec Sink.silent () h
    rw [settle_passLimit] at term
    refine ⟨g, u, ts, ?_, term, held⟩
    simp only [nthTree, made]
  | succ k =>
    obtain ⟨gs, notes, made, length, rest⟩ := derivatives_ok Sink.silent (k + 1) () defined h
    have inside : k < gs.length := by omega
    obtain ⟨u, term, held⟩ := (rest k gs[k] (List.getElem?_eq_getElem inside)).holds m.past
    refine ⟨gs[k], u, [], ?_, term, held⟩
    simp only [nthTree, made, List.getElem?_eq_getElem inside, Option.elim_some]

theorem Holds.nthValue_eq (h : f.Holds m (some l) ts)
    (assigned : m.registry.assign? symbol center = some r) (k : Nat) :
    f.nthValue symbol center k = ((Term.slope (.ofSymbol symbol))^[k] l.term.pass).value r := by
  obtain ⟨g, u, us, made, term, held⟩ := h.nthTree_ok (Mark.defines_of_assign assigned) k
  simp only [nthValue, h.stands.registry, assigned, made]
  rw [← term]
  exact (held.reregister r).value_eq

end Forest

/-! ### Failures -/

/-- A report of something else than a failed evaluation. -/
def Report.OfChange (r : Report) : Prop := ∀ i e, r ≠ .evaluationFailed i e

/-- What is noted is one failed evaluation of a live expression, after reports of other things. -/
def Sink.NotedFailure (sink : Sink σ) (first : σ) (e : Fault) (last : σ) : Prop :=
  ∃ (notes : σ) (g : Forest) (root : Nat), g.root = some root ∧
    sink.Noted Report.OfChange first notes ∧ last = sink g (.evaluationFailed root e) notes

omit [Elementary] in
theorem Sink.Noted.failure {first notes last : σ} (before : sink.Noted Report.OfChange first notes)
    (h : sink.NotedFailure notes e last) : sink.NotedFailure first e last := by
  obtain ⟨notes', g, root, live, between, rfl⟩ := h
  exact ⟨notes', g, root, live, before.trans between, rfl⟩

namespace Watch

variable {n : Nat} {notes : σ} {w : Watched σ}

theorem simplify_tells_change : Tells sink Report.OfChange notes (simplify sink) :=
  tells_simplify (by simp [Report.OfChange]) (by simp [Report.OfChange])

theorem advance_tells_change : Tells sink Report.OfChange notes (advance sink symbol) :=
  tells_advance (by simp [Report.OfChange]) (by simp [Report.OfChange])
    (by simp [Report.OfChange]) (by simp [Report.OfChange]) symbol

/-- Either the live expression has no value, or it is a later one that has none. -/
theorem notedFailure_of_valueAt {further : Watch σ (List Float)} (h : f.Holds m (some l) ts)
    (assigned : m.registry.assign? symbol center = some r)
    (rest : ∀ w, further ⟨{ f with registry := r }, notes⟩ = .error e w →
      sink.NotedFailure notes e w.notes)
    (failed : (do
      let v ← valueAt sink symbol center
      return v :: (← further) : Watch σ (List Float)) ⟨f, notes⟩ = .error e w) :
    sink.NotedFailure notes e w.notes := by
  have value := valueAt_eq sink notes h assigned
  cases hv : l.term.value r with
  | error e' =>
    rw [hv] at value
    rw [bind_error value] at failed
    cases failed
    exact ⟨notes, { f with registry := r }, l.top, h.root, .nothing, rfl⟩
  | ok v =>
    rw [hv] at value
    rw [bind_ok value] at failed
    cases hw : further ⟨{ f with registry := r }, notes⟩ with
    | ok vs w' =>
      rw [bind_ok hw] at failed
      cases failed
    | error e' w' =>
      rw [bind_error hw] at failed
      cases failed
      exact rest w hw

theorem notedFailure_of_furtherValues (h : f.Holds m (some l) ts)
    (assigned : m.registry.assign? symbol center = some m.registry)
    (failed : furtherValues sink symbol center n ⟨f, notes⟩ = .error e w) :
    sink.NotedFailure notes e w.notes := by
  induction n generalizing f l ts notes w with
  | zero => cases failed
  | succ n ih =>
    obtain ⟨u, g, notes₁, h₁, -, held⟩ :=
      advance_ok sink notes (Mark.defines_of_assign assigned) h
    rw [furtherValues, bind_ok h₁] at failed
    apply (advance_tells_change.noted h₁).failure
    exact notedFailure_of_valueAt held assigned
      (fun w hw => ih (held.reregister m.registry) hw) failed

theorem notedFailure_of_values (h : f.Holds m (some l) ts)
    (assigned : m.registry.assign? symbol center = some r)
    (failed : values sink symbol center n ⟨f, notes⟩ = .error e w) :
    sink.NotedFailure notes e w.notes := by
  cases n with
  | zero => cases failed
  | succ n =>
    have again := Registry.assign_again assigned
    exact notedFailure_of_valueAt h assigned
      (fun w hw => notedFailure_of_furtherValues (h.reregister r) again hw) failed

theorem notedFailure_of_gather (h : f.Holds m (some l) ts)
    (assigned : m.registry.assign? symbol center = some r)
    (failed : gather sink symbol center n ⟨f, notes⟩ = .error e w) :
    sink.NotedFailure notes e w.notes := by
  obtain ⟨u, f₁, notes₁, total, simplified, -, held⟩ := simplify_spec sink notes h
  rw [h.gather_eq center n (Mark.defines_of_assign assigned) simplified] at failed
  exact (simplify_tells_change.noted simplified).failure
    (notedFailure_of_values held assigned failed)

end Watch

/-! ### The expansion -/

namespace Forest

/-- The live expression is a tree of the sum, and the registry has only the symbol, without
value. -/
structure StandsFor (h : Forest) (symbol : Char) (sum : Term Char) : Prop where
  shaped : h.TreeShaped
  registry : h.registry = ⟨[⟨symbol, none⟩]⟩
  term : h.root.bind h.term? = some (sum.map Key.ofSymbol)

omit [Elementary] in
theorem exists_standsFor (symbol : Char) (center : Float) (vs : List Float) :
    ∃ h : Forest, h.StandsFor symbol (Expansion.polynomial symbol center vs) := by
  obtain ⟨u, h, -, term, held⟩ := (empty_holds.reregister
    (empty.registry.register symbol)).plantRoot (Expansion.polynomial symbol center vs)
  refine ⟨h, held.treeShaped, ?_, ?_⟩
  · rw [held.stands.registry]
    exact Expansion.foldl_register_polynomial vs
  · rw [held.root, Option.map_some, Option.bind_some, term?_eq held.fits_live, term]

/-- Whatever forest the sum stands in, simplification and compaction make the same of it. -/
theorem StandsFor.compact_simplified {h : Forest} {sum : Term Char}
    (stands : h.StandsFor symbol sum) (sink : Sink σ) (notes : σ) :
    ∃ total h' notes', Watch.simplify sink ⟨h, notes⟩ = .ok total ⟨h', notes'⟩ ∧
      h'.compact.Packed ⟨[⟨symbol, none⟩]⟩ (sum.map Key.ofSymbol).pass := by
  obtain ⟨i, root, term⟩ := Option.bind_eq_some_iff.mp stands.term
  obtain ⟨l, held⟩ := stands.shaped.exists_holds_some ⟨i, root⟩
  obtain ⟨u, h', notes', total, made, same, held'⟩ := Watch.simplify_spec sink notes held
  have packed := held'.compact_packed
  rw [held.root, Option.map_some, Option.some.injEq] at root
  rw [← root, term?_eq held.fits_live, Option.some.injEq] at term
  rw [same, settle_passLimit, term, stands.registry] at packed
  exact ⟨total, h', notes', made, packed⟩

variable {n : Nat} {notes : σ}

theorem Holds.expand_ok {v : Nat → Float} (h : f.Holds m (some l) ts)
    (assigned : m.registry.assign? symbol center = some r)
    (values : ∀ k < n, f.nthValue symbol center k = .ok (v k)) :
    ∃ g notes', f.expand sink symbol center n notes = .ok g notes' ∧
      g.Packed ⟨[⟨symbol, none⟩]⟩
        ((Expansion.announced symbol center v n).map Key.ofSymbol).pass := by
  have gathers := h.gathers sink n notes assigned
  rw [← funext (h.nthValue_eq assigned)] at gathers
  cases gathered : Watch.gather sink symbol center n ⟨f, notes⟩ with
  | error e w =>
    rw [gathered] at gathers
    obtain ⟨k, lt, failed, -⟩ := gathers
    have both := (values k lt).symm.trans failed
    cases both
  | ok vs w =>
    rw [gathered] at gathers
    obtain ⟨g, notes', made, packed⟩ := expand_of_values gathered
    rw [Expansion.foldl_register_polynomial, gathers.eq_map_range values,
      Expansion.polynomial_eq_announced] at packed
    exact ⟨g, notes', made, packed⟩

theorem Holds.expand_error {k : Nat} (h : f.Holds m (some l) ts)
    (assigned : m.registry.assign? symbol center = some r) (lt : k < n)
    (failed : f.nthValue symbol center k = .error e)
    (earlier : ∀ j < k, ∃ v, f.nthValue symbol center j = .ok v) :
    ∃ notes', f.expand sink symbol center n notes = .error e notes' ∧
      sink.NotedFailure notes e notes' := by
  have gathers := h.gathers sink n notes assigned
  rw [← funext (h.nthValue_eq assigned)] at gathers
  have missing := (gathers.eq_error_iff e).mpr ⟨k, lt, failed, earlier⟩
  cases gathered : Watch.gather sink symbol center n ⟨f, notes⟩ with
  | ok vs w =>
    rw [gathered] at missing
    cases missing
  | error e' w =>
    rw [gathered] at missing
    cases missing
    exact ⟨w.notes, expand_of_missing gathered, Watch.notedFailure_of_gather h assigned gathered⟩

/-- The expansion is the announced polynomial, simplified and compacted, if all orders have
values; otherwise it fails as the first order without a value does, and that is reported once. -/
theorem expand_announced (sink : Sink σ) (notes : σ) (f : Forest) (symbol : Char) (center : Float)
    (n : Nat) (shaped : f.TreeShaped) (root : ∃ i, f.root = some i)
    (registered : ∃ e, f.registry.find? (.ofSymbol symbol) = some e) :
    (∀ v : Nat → Float, (∀ k < n, f.nthValue symbol center k = .ok (v k)) →
      ∃ g notes', f.expand sink symbol center n notes = .ok g notes' ∧
        g.root = some 0 ∧ (∀ i < g.size, g.Live i) ∧ g.registry = ⟨[⟨symbol, none⟩]⟩ ∧
        (∃ h : Forest, h.StandsFor symbol (Expansion.announced symbol center v n)) ∧
        ∀ (h : Forest) (before : σ), h.StandsFor symbol (Expansion.announced symbol center v n) →
          ∃ total h' after, Watch.simplify sink ⟨h, before⟩ = .ok total ⟨h', after⟩ ∧
            h'.compact = g) ∧
    (∀ k e, k < n → f.nthValue symbol center k = .error e →
      (∀ j < k, ∃ v, f.nthValue symbol center j = .ok v) →
      ∃ notes', f.expand sink symbol center n notes = .error e notes' ∧
        sink.NotedFailure notes e notes') := by
  obtain ⟨l, holds⟩ := shaped.exists_holds_some root
  obtain ⟨r, assigned⟩ := Registry.exists_assign (Option.isSome_iff_exists.mpr registered) center
  constructor
  · intro v values
    obtain ⟨g, notes', made, packed⟩ := holds.expand_ok assigned values
    obtain ⟨u, -, held⟩ := packed.holds 0
    refine ⟨g, notes', made, packed.root_eq, fun i hi => packed.live hi, held.stands.registry,
      ?_, ?_⟩
    · rw [← Expansion.polynomial_eq_announced]
      exact exists_standsFor symbol center _
    · intro h before stands
      obtain ⟨total, h', after, made, packed'⟩ := stands.compact_simplified sink before
      exact ⟨total, h', after, made, packed'.unique packed⟩
  · intro k e lt failed earlier
    exact holds.expand_error assigned lt failed earlier

end Forest

end

namespace Forest

/-- The square has the values 1, 2 and 2 at 1. The reciprocal has none at 0. -/
theorem expand_square_reciprocal :
    square.TreeShaped ∧ reciprocal.TreeShaped ∧
      (∃ (g : Forest) (notes : Unit) (h : Forest),
        @expand .coarse _ Sink.silent square 'x' 1 3 () = .ok g notes ∧
        g.root = some 0 ∧ g.registry = ⟨[⟨'x', none⟩]⟩ ∧
        h.StandsFor 'x' (Expansion.announced 'x' 1 (fun k => if k = 0 then 1 else 2) 3)) ∧
      ∃ notes, @expand .coarse _ Sink.records reciprocal 'x' 0 3 #[] =
          .error (.numeric ⟨.binary .div, 1, some 0, .divisionByZero⟩) notes ∧
        Sink.records.NotedFailure #[] (.numeric ⟨.binary .div, 1, some 0, .divisionByZero⟩)
          notes := by
  obtain ⟨u, -, held⟩ := holds_of_ofTerm ofTerm_square
  obtain ⟨u', -, held'⟩ := holds_of_ofTerm ofTerm_reciprocal
  have values : ∀ k < 3, @nthValue .coarse square 'x' 1 k = .ok (if k = 0 then 1 else 2) := by
    decide +kernel
  have missing : @nthValue .coarse reciprocal 'x' 0 0 =
      .error (.numeric ⟨.binary .div, 1, some 0, .divisionByZero⟩) := by decide +kernel
  obtain ⟨made, -⟩ := @expand_announced .coarse Unit Sink.silent () square 'x' 1 3
    held.treeShaped ⟨2, rfl⟩ ⟨⟨'x', none⟩, by decide⟩
  obtain ⟨-, failed⟩ := @expand_announced .coarse _ Sink.records #[] reciprocal 'x' 0 3
    held'.treeShaped ⟨2, rfl⟩ ⟨⟨'x', none⟩, by decide⟩
  obtain ⟨g, notes, made, root, -, registry, ⟨h, stands⟩, -⟩ := made _ values
  refine ⟨held.treeShaped, held'.treeShaped, ⟨g, notes, h, made, root, registry, stands⟩, ?_⟩
  exact failed 0 _ (by decide) missing fun j hj => absurd hj (Nat.not_lt_zero j)

end Forest

end Fluxion
