import Fluxion.Proofs.Derivative.Jet

/-!
# Which transformations fail

On a live tree nothing fails half way. Simplification and differentiation at a node succeed.
Derivatives with respect to a symbol fail only for want of the symbol, and then before anything
is done. An expansion fails for want of the symbol or with the fault of the first order that
has no value at the centre.
-/

namespace Fluxion

section

variable [Elementary] {σ : Type} {f : Forest} {m : Mark} {l : Tree} {ts : List Tree}
  {symbol : Char} {center : Float} {r : Registry}

namespace Forest

/-- The value at the centre of the derivative of order `k`. -/
def orderValue (f : Forest) (symbol : Char) (center : Float) (k : Nat) : Except Fault Float :=
  match Watch.differentiateTimes Sink.silent symbol k ⟨f, ()⟩ with
  | .ok _ w => w.forest.valueWith symbol center
  | .error e _ => .error e

theorem Holds.orderValue_eq (h : f.Holds m (some l) ts)
    (assigned : m.registry.assign? symbol center = some r) (k : Nat) :
    f.orderValue symbol center k =
      ((Term.slope (.ofSymbol symbol))^[k] l.term.pass).value r := by
  obtain ⟨u, g, notes, made, term, held⟩ := Watch.differentiateTimes_ok Sink.silent k ()
    (Mark.defines_of_assign assigned) h
  rw [orderValue, made, ← term]
  exact held.valueWith_eq assigned

theorem expand_error (sink : Sink σ) (center : Float) (n : Nat) (notes : σ)
    (undefined : ¬ m.Defines symbol) (h : f.Holds m (some l) ts) :
    f.expand sink symbol center n notes = .error (.undefined symbol) notes :=
  expand_of_missing (Watch.gather_error sink center n notes undefined h)

/-- An expansion goes wrong in its evaluations or not at all. -/
theorem Holds.expand_error_iff (sink : Sink σ) (n : Nat) (notes : σ) (e : Fault)
    (h : f.Holds m (some l) ts) (assigned : m.registry.assign? symbol center = some r) :
    (∃ notes', f.expand sink symbol center n notes = .error e notes') ↔
      ∃ k < n, f.orderValue symbol center k = .error e ∧
        ∀ j < k, ∃ v, f.orderValue symbol center j = .ok v := by
  have gathers := h.gathers sink n notes assigned
  rw [← funext (h.orderValue_eq assigned)] at gathers
  rw [← gathers.eq_error_iff]
  cases gathered : Watch.gather sink symbol center n ⟨f, notes⟩ with
  | ok vs w =>
    obtain ⟨g, notes', made, -⟩ := expand_of_values gathered
    constructor
    · rintro ⟨notes'', failed⟩
      rw [made] at failed
      cases failed
    · rintro ⟨⟩
  | error e' w =>
    have made := expand_of_missing gathered
    constructor
    · rintro ⟨notes'', failed⟩
      rw [made] at failed
      cases failed
      rfl
    · rintro ⟨⟩
      exact ⟨w.notes, made⟩

/-- What fails, and with which fault. -/
theorem outcomes_of_treeShaped (sink : Sink σ) (notes : σ) (f : Forest) (shaped : f.TreeShaped)
    (root : ∃ i, f.root = some i) :
    (∃ total w, Watch.simplify sink ⟨f, notes⟩ = .ok total w) ∧
    (∀ i key, f.Live i → ∃ d w, Watch.differentiate sink i key ⟨f, notes⟩ = .ok d w) ∧
    ∀ symbol : Char,
      ((∃ e, f.registry.find? (.ofSymbol symbol) = some e) →
        (∃ w, Watch.differentiateRoot sink symbol ⟨f, notes⟩ = .ok () w) ∧
        (∀ n, ∃ w, Watch.differentiateTimes sink symbol n ⟨f, notes⟩ = .ok () w) ∧
        (∀ n, ∃ gs notes', f.derivatives sink symbol n notes = .ok gs notes') ∧
        ∀ center n e, (∃ notes', f.expand sink symbol center n notes = .error e notes') ↔
          ∃ k < n, f.orderValue symbol center k = .error e ∧
            ∀ j < k, ∃ v, f.orderValue symbol center j = .ok v) ∧
      (f.registry.find? (.ofSymbol symbol) = none →
        Watch.differentiateRoot sink symbol ⟨f, notes⟩ =
          .error (.undefined symbol) ⟨f, notes⟩ ∧
        (∀ n, Watch.differentiateTimes sink symbol n ⟨f, notes⟩ =
          .error (.undefined symbol) ⟨f, notes⟩) ∧
        (∀ n, f.derivatives sink symbol n notes = .error (.undefined symbol) notes) ∧
        ∀ center n, f.expand sink symbol center n notes = .error (.undefined symbol) notes) := by
  obtain ⟨l, holds⟩ := shaped.exists_holds_some root
  refine ⟨?_, ?_, fun symbol => ⟨?_, ?_⟩⟩
  · obtain ⟨-, g, notes', total, made, -⟩ := Watch.simplify_spec sink notes holds
    exact ⟨total, _, made⟩
  · intro i key live
    obtain ⟨k, t, rfl, rfl⟩ := Tree.exists_plug (holds.live_iff.mp live)
    obtain ⟨u, g, notes', made, -⟩ := Watch.differentiate_part sink key notes holds
    exact ⟨u.top, _, made⟩
  · intro registered
    have defined : Mark.Defines ⟨f.registry, f.retired.size⟩ symbol := registered
    refine ⟨?_, fun n => ?_, fun n => ?_, fun center n e => ?_⟩
    · obtain ⟨-, g, notes', made, -⟩ := Watch.differentiateRoot_ok sink notes defined holds
      exact ⟨_, made⟩
    · obtain ⟨-, g, notes', made, -⟩ := Watch.differentiateTimes_ok sink n notes defined holds
      exact ⟨_, made⟩
    · obtain ⟨gs, notes', made, -⟩ := derivatives_ok sink n notes defined holds
      exact ⟨gs, notes', made⟩
    · obtain ⟨r, assigned⟩ :=
        Registry.exists_assign (Option.isSome_iff_exists.mpr registered) center
      exact holds.expand_error_iff sink n notes e assigned
  · intro unregistered
    have undefined : ¬ Mark.Defines ⟨f.registry, f.retired.size⟩ symbol := by
      rintro ⟨e, he⟩
      rw [Registry.findSymbol?, unregistered] at he
      cases he
    refine ⟨Watch.differentiateRoot_error sink notes undefined holds, fun n => ?_, fun n => ?_,
      fun center n => ?_⟩
    · exact Watch.differentiateTimes_error sink n notes undefined holds
    · exact derivatives_error sink n notes undefined holds
    · exact expand_error sink center n notes undefined holds

end Forest

end

namespace Forest

/-- The forest of `1 / x`. -/
def reciprocal : Forest where
  cells := #[.number 1, .var (.ofSymbol 'x'), .binary .div 0 1]
  parents := #[some 2, some 2, none]
  root := some 2
  registry := ⟨[⟨'x', none⟩]⟩

theorem ofTerm_reciprocal : ofTerm (.binary .div (.number 1) (.var 'x')) = .ok reciprocal := rfl

/-- At 0 the reciprocal has no value. Nothing else fails for `x`, and all for `y`. -/
theorem outcomes_reciprocal :
    reciprocal.TreeShaped ∧ (∃ i, reciprocal.root = some i) ∧
      (∃ total w, @Watch.simplify .coarse _ Sink.silent ⟨reciprocal, ()⟩ = .ok total w) ∧
      (∃ d w, Watch.differentiate Sink.silent 1 7 ⟨reciprocal, ()⟩ = .ok d w) ∧
      (∃ w, @Watch.differentiateTimes .coarse _ Sink.silent 'x' 3 ⟨reciprocal, ()⟩ = .ok () w) ∧
      @Watch.differentiateTimes .coarse _ Sink.silent 'y' 3 ⟨reciprocal, ()⟩ =
        .error (.undefined 'y') ⟨reciprocal, ()⟩ ∧
      ∃ notes, @expand .coarse _ Sink.silent reciprocal 'x' 0 3 () =
        .error (.numeric ⟨.binary .div, 1, some 0, .divisionByZero⟩) notes := by
  obtain ⟨u, -, held⟩ := holds_of_ofTerm ofTerm_reciprocal
  have live : reciprocal.Live 1 := ⟨2, rfl, .single (by decide)⟩
  have first : @orderValue .coarse reciprocal 'x' 0 0 =
      .error (.numeric ⟨.binary .div, 1, some 0, .divisionByZero⟩) := by decide
  obtain ⟨simplified, differentiated, symbols⟩ := @outcomes_of_treeShaped .coarse Unit Sink.silent
    () reciprocal held.treeShaped ⟨2, rfl⟩
  obtain ⟨-, times, -, expanded⟩ := (symbols 'x').1 ⟨⟨'x', none⟩, by decide⟩
  obtain ⟨-, refused, -⟩ := (symbols 'y').2 (by decide)
  refine ⟨held.treeShaped, ⟨2, rfl⟩, simplified, differentiated 1 7 live, times 3, refused 3, ?_⟩
  exact (expanded 0 3 _).mpr ⟨0, by decide, first, fun j hj => absurd hj (Nat.not_lt_zero j)⟩

end Forest

end Fluxion
