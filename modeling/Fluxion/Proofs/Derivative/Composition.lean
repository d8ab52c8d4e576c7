import Fluxion.Journal.Sinks
import Fluxion.Proofs.Derivative.Sampling
import Fluxion.Proofs.Simplification.Rest

/-!
# One sequence of derivatives

Derivatives that are taken one after the other, derivatives that are listed and the derivatives
that an expansion evaluates are the same forests, cell by cell. To take a derivatives and then
b more leaves what a + b of them leave.
-/

namespace Fluxion

section

variable [Elementary] {σ τ υ : Type} {f g : Forest} {m : Mark} {l : Tree} {ts : List Tree}
  {symbol : Char}

/-- Nothing is left to simplify in any derivative. -/
theorem Term.passReductions_slopes (key : Key) (n : Nat) (t : Term Key) :
    ((Term.slope key)^[n] t.pass).passReductions = 0 := by
  cases n with
  | zero => exact t.passReductions_pass
  | succ n =>
    rw [Function.iterate_succ_apply']
    exact Term.passReductions_pass _

namespace Watch

/-- Whoever takes the reports, the forest is the same. -/
theorem differentiateTimes_agree {sink : Sink σ} {n : Nat} {notes notes₁ : σ} (sink' : Sink τ)
    (notes' : τ) (defined : m.Defines symbol) (h : f.Holds m (some l) ts)
    (made : differentiateTimes sink symbol n ⟨f, notes⟩ = .ok () ⟨g, notes₁⟩) :
    ∃ notes₂, differentiateTimes sink' symbol n ⟨f, notes'⟩ = .ok () ⟨g, notes₂⟩ := by
  cases n with
  | zero =>
    obtain ⟨u, f₁, notes₁', k, h₁, -, -⟩ := simplify_spec sink (sink f (.given l.top) notes) h
    rw [differentiateTimes_eq 0 defined h h₁] at made
    cases made
    obtain ⟨notes₂, h₂⟩ :=
      (simplify_concurs sink sink').ok h₁ (sink' f (.given l.top) notes')
    exact ⟨notes₂, differentiateTimes_eq 0 defined h h₂⟩
  | succ n =>
    obtain ⟨g₁, notes₁', h₁, packed₁⟩ := differentiateTimes_packed sink n notes defined h
    obtain ⟨g₂, notes₂, h₂, packed₂⟩ := differentiateTimes_packed sink' n notes' defined h
    rw [h₁] at made
    cases made
    obtain rfl := packed₁.unique packed₂
    exact ⟨notes₂, h₂⟩

/-- First `a` derivatives and then `b` more. -/
theorem differentiateTimes_add (sink : Sink σ) (sink' : Sink τ) (sink'' : Sink υ) (a b : Nat)
    (notes : σ) (notes' : τ) (notes'' : υ) (defined : m.Defines symbol)
    (h : f.Holds m (some l) ts) :
    ∃ f₁ g notes₁ notes₂ notes₃,
      differentiateTimes sink symbol a ⟨f, notes⟩ = .ok () ⟨f₁, notes₁⟩ ∧
      differentiateTimes sink' symbol b ⟨f₁, notes'⟩ = .ok () ⟨g, notes₂⟩ ∧
      differentiateTimes sink'' symbol (a + b) ⟨f, notes''⟩ = .ok () ⟨g, notes₃⟩ := by
  obtain ⟨u, f₁, notes₁, h₁, term, held⟩ := differentiateTimes_ok sink a notes defined h
  have rest : u.term.passReductions = 0 := by
    rw [term]
    exact Term.passReductions_slopes (.ofSymbol symbol) a l.term
  cases b with
  | zero =>
    obtain ⟨notes₂, h₂⟩ := simplify_rest sink' (sink' f₁ (.given u.top) notes') held rest
    obtain ⟨notes₃, h₃⟩ := differentiateTimes_agree sink'' notes'' defined h h₁
    exact ⟨f₁, f₁, notes₁, notes₂, notes₃, h₁, differentiateTimes_eq 0 defined held h₂, h₃⟩
  | succ b =>
    obtain ⟨g, notes₂, h₂, packed₂⟩ := differentiateTimes_packed sink' b notes' defined held
    obtain ⟨g', notes₃, h₃, packed₃⟩ :=
      differentiateTimes_packed sink'' (a + b) notes'' defined h
    rw [Term.pass_of_passReductions rest, term, ← Function.iterate_add_apply,
      Nat.add_comm (b + 1) a] at packed₂
    obtain rfl := packed₂.unique packed₃
    exact ⟨f₁, g, notes₁, notes₂, notes₃, h₁, h₂, h₃⟩

end Watch

namespace Forest

/-- The derivative of order `k` is listed at its place. -/
theorem Holds.getElem?_derivatives (sink : Sink σ) {k n : Nat} (notes : σ)
    (defined : m.Defines symbol) (h : f.Holds m (some l) ts) (lt : k < n)
    (packed : g.Packed m.registry ((Term.slope (.ofSymbol symbol))^[k + 1] l.term.pass)) :
    ∃ gs notes', f.derivatives sink symbol n notes = .ok gs notes' ∧ gs.length = n ∧
      gs[k]? = some g := by
  obtain ⟨gs, notes', made, length, all⟩ := derivatives_ok sink n notes defined h
  have inside : k < gs.length := by omega
  refine ⟨gs, notes', made, length, ?_⟩
  rw [List.getElem?_eq_getElem inside]
  exact congrArg some ((all k _ (List.getElem?_eq_getElem inside)).unique packed)

/-- Up to the value of the symbol, the derivative of order `k` is what is evaluated. -/
theorem Holds.approach_eq {sink : Sink σ} {center : Float} {k : Nat} {notes notes₁ : σ}
    {sink' : Sink τ} {notes' notes₂ : τ} {vs : List Float} {s : Forest} {r : Registry}
    (h : f.Holds m (some l) ts) (assigned : m.registry.assign? symbol center = some r)
    (made : Watch.differentiateTimes sink symbol k ⟨f, notes⟩ = .ok () ⟨g, notes₁⟩)
    (reached : Watch.approach sink' symbol center k ⟨f, notes'⟩ = .ok vs ⟨s, notes₂⟩) :
    g.registry.assign? symbol center = some r ∧ s = { g with registry := r } := by
  have defined := Mark.defines_of_assign assigned
  cases k with
  | zero =>
    obtain ⟨u, f₁, notes₃, total, simplified, -, held, start⟩ :=
      Watch.approach_zero sink' notes' h assigned
    cases start.symm.trans reached
    obtain ⟨notes₄, same⟩ :=
      (Watch.simplify_concurs sink' sink).ok simplified (sink f (.given l.top) notes)
    rw [Watch.differentiateTimes_eq 0 defined h same] at made
    cases made
    rw [held.stands.registry]
    exact ⟨assigned, rfl⟩
  | succ k =>
    obtain ⟨g', notes₃, made', packed⟩ := Watch.differentiateTimes_packed sink k notes defined h
    cases made.symm.trans made'
    obtain ⟨u, -, held⟩ := packed.holds 0
    rw [held.stands.registry]
    exact ⟨assigned, ((h.approach assigned reached).2.2 k.succ_ne_zero).unique
      (packed.reregister r)⟩

/-- Taking derivatives composes, and whoever takes them goes through the same forests. Up to the
value of the symbol, an expansion evaluates them one after the other: it goes on with the value
of each, or fails as its evaluation does. -/
theorem one_derivative_sequence (sink : Sink σ) (sink' : Sink τ) (sink'' : Sink υ) (f : Forest)
    (shaped : f.TreeShaped) (root : ∃ i, f.root = some i) (symbol : Char)
    (registered : ∃ e, f.registry.findSymbol? symbol = some e) :
    (∀ (a b : Nat) (notes : σ) (notes' : τ) (notes'' : υ), ∃ f₁ g notes₁ notes₂ notes₃,
      Watch.differentiateTimes sink symbol a ⟨f, notes⟩ = .ok () ⟨f₁, notes₁⟩ ∧
      Watch.differentiateTimes sink' symbol b ⟨f₁, notes'⟩ = .ok () ⟨g, notes₂⟩ ∧
      Watch.differentiateTimes sink'' symbol (a + b) ⟨f, notes''⟩ = .ok () ⟨g, notes₃⟩) ∧
    ∀ (k : Nat) (notes : σ), ∃ g notes₁,
      Watch.differentiateTimes sink symbol k ⟨f, notes⟩ = .ok () ⟨g, notes₁⟩ ∧
      (∀ (n : Nat) (notes' : τ), 1 ≤ k → k ≤ n → ∃ gs notes₂,
        f.derivatives sink' symbol n notes' = .ok gs notes₂ ∧ gs.length = n ∧
          gs[k - 1]? = some g) ∧
      ∀ (center : Float) (notes'' : υ),
        ((∀ j < k, ∃ vs s notes₂ v,
            Watch.approach sink'' symbol center j ⟨f, notes''⟩ = .ok vs ⟨s, notes₂⟩ ∧
            s.value = .ok v) →
          ∃ vs s notes₂,
            Watch.approach sink'' symbol center k ⟨f, notes''⟩ = .ok vs ⟨s, notes₂⟩) ∧
        ∀ vs s notes₂, Watch.approach sink'' symbol center k ⟨f, notes''⟩ = .ok vs ⟨s, notes₂⟩ →
          vs.length = k ∧
          (∃ r, g.registry.assign? symbol center = some r ∧ s = { g with registry := r }) ∧
          (∀ v n, s.value = .ok v → f.expand sink'' symbol center (k + 1 + n) notes'' = (do
            let (ws, _) ← (Watch.furtherValues sink'' symbol center n).aside s
            return (← (Watch.assemble sink'' symbol center (vs ++ v :: ws)).aside .empty).2)
              notes₂) ∧
          ∀ e n, s.value = .error e →
            ∃ notes₃, f.expand sink'' symbol center (k + 1 + n) notes'' = .error e notes₃ := by
  obtain ⟨l, holds⟩ := shaped.exists_holds_some root
  have defined : Mark.Defines ⟨f.registry, f.retired.size⟩ symbol := registered
  constructor
  · intro a b notes notes' notes''
    exact Watch.differentiateTimes_add sink sink' sink'' a b notes notes' notes'' defined holds
  · intro k notes
    obtain ⟨u, g, notes₁, made, -, -⟩ := Watch.differentiateTimes_ok sink k notes defined holds
    refine ⟨g, notes₁, made, ?_, ?_⟩
    · intro n notes' pos le
      obtain ⟨k, rfl⟩ := Nat.exists_eq_succ_of_ne_zero (Nat.ne_of_gt pos)
      obtain ⟨g', notes₂, made', packed⟩ :=
        Watch.differentiateTimes_packed sink k notes defined holds
      rw [made] at made'
      cases made'
      exact holds.getElem?_derivatives sink' notes' defined (by omega) packed
    · intro center notes''
      obtain ⟨r, assigned⟩ :=
        Registry.exists_assign (Option.isSome_iff_exists.mpr registered) center
      refine ⟨holds.exists_approach sink'' k notes'' assigned, ?_⟩
      intro vs s notes₂ reached
      obtain ⟨length, ⟨u, us, -, held⟩, -⟩ := holds.approach assigned reached
      refine ⟨length, ⟨r, holds.approach_eq assigned made reached⟩, ?_, ?_⟩
      · exact fun v n value => expand_of_approach n reached held value
      · exact fun e n failed => ⟨_, expand_of_approach_error n reached held failed⟩

end Forest

end

namespace Forest

/-- The forest of `x * x * x + 0`, in which a number was replaced before. -/
def cube : Forest where
  cells := #[.var (.ofSymbol 'x'), .var (.ofSymbol 'x'), .binary .mul 0 1, .var (.ofSymbol 'x'),
    .binary .mul 2 3, .number 7, .number 0, .binary .add 4 6]
  parents := #[some 2, some 2, some 4, some 4, some 7, none, some 7, none]
  root := some 7
  retired := #[5]
  registry := ⟨[⟨'x', none⟩]⟩

theorem cube_holds :
    cube.Holds ⟨cube.registry, 0⟩
      (some (.binary 7 .add (.binary 4 .mul (.binary 2 .mul (.var 0 (.ofSymbol 'x'))
        (.var 1 (.ofSymbol 'x'))) (.var 3 (.ofSymbol 'x'))) (.number 6 0))) [] := by
  refine holds_of_tree rfl rfl ?_ ?_ rfl (by decide) (by decide)
  · exact ⟨rfl, ⟨rfl, ⟨rfl, rfl, rfl⟩, rfl⟩, rfl⟩
  · exact ⟨rfl, rfl, ⟨rfl, rfl, ⟨rfl, rfl, trivial, trivial⟩, trivial⟩, trivial⟩

/-- The second derivative of the cube is the derivative of its derivative, the second of its
first three derivatives, and what an expansion about 1 evaluates to 6 after the values 1 and 3. -/
theorem one_derivative_sequence_cube :
    cube.TreeShaped ∧ (∃ i, cube.root = some i) ∧
      (∃ e, cube.registry.findSymbol? 'x' = some e) ∧
      (∃ f₁ g, @Watch.differentiateTimes .coarse _ Sink.silent 'x' 1 ⟨cube, ()⟩ =
          .ok () ⟨f₁, ()⟩ ∧
        @Watch.differentiateTimes .coarse _ Sink.silent 'x' 1 ⟨f₁, ()⟩ = .ok () ⟨g, ()⟩ ∧
        @Watch.differentiateTimes .coarse _ Sink.silent 'x' 2 ⟨cube, ()⟩ = .ok () ⟨g, ()⟩) ∧
      ∃ g gs r, @Watch.differentiateTimes .coarse _ Sink.silent 'x' 2 ⟨cube, ()⟩ =
          .ok () ⟨g, ()⟩ ∧
        @derivatives .coarse _ Sink.silent cube 'x' 3 () = .ok gs () ∧ gs[1]? = some g ∧
        g.registry.assign? 'x' 1 = some r ∧
        @Watch.approach .coarse _ Sink.silent 'x' 1 2 ⟨cube, ()⟩ =
          .ok [1, 3] ⟨{ g with registry := r }, ()⟩ ∧
        @value .coarse { g with registry := r } = .ok 6 ∧
        @expand .coarse _ Sink.silent cube 'x' 1 3 () = (do
          let work := @Watch.assemble _ .coarse Sink.silent 'x' 1 [1, 3, 6]
          return (← work.aside .empty).2) () := by
  have shaped := cube_holds.treeShaped
  have registered : ∃ e, cube.registry.findSymbol? 'x' = some e := ⟨⟨'x', none⟩, by decide⟩
  obtain ⟨composed, listed⟩ := @one_derivative_sequence .coarse Unit Unit Unit Sink.silent
    Sink.silent Sink.silent cube shaped ⟨7, rfl⟩ 'x' registered
  refine ⟨shaped, ⟨7, rfl⟩, registered, ?_, ?_⟩
  · obtain ⟨f₁, g, _, _, _, h₁, h₂, h₃⟩ := composed 1 1 () () ()
    exact ⟨f₁, g, h₁, h₂, h₃⟩
  · obtain ⟨g, _, made, inList, evaluated⟩ := listed 2 ()
    obtain ⟨gs, _, all, -, second⟩ := inList 3 () (by decide) (by decide)
    obtain ⟨-, reached⟩ := evaluated 1 ()
    have way : (match @Watch.approach .coarse _ Sink.silent 'x' 1 2 ⟨cube, ()⟩ with
        | .ok vs w => some (vs, @value .coarse w.forest)
        | .error _ _ => none) = some ([1, 3], .ok 6) := by
      decide +kernel
    cases come : @Watch.approach .coarse _ Sink.silent 'x' 1 2 ⟨cube, ()⟩ with
    | error e w =>
      rw [come] at way
      cases way
    | ok vs w =>
      rw [come, Option.some.injEq, Prod.mk.injEq] at way
      obtain ⟨rfl, value⟩ := way
      obtain ⟨-, ⟨r, assigned, same⟩, goesOn, -⟩ := reached [1, 3] w.forest w.notes come
      rw [same] at value
      refine ⟨g, gs, r, made, all, second, assigned, ?_, value, ?_⟩
      · rw [← same]
      · have ends := goesOn 6 0 (same ▸ value)
        have last : @Watch.furtherValues .coarse _ Sink.silent 'x' 1 0 ⟨w.forest, w.notes⟩ =
            .ok [] ⟨w.forest, w.notes⟩ := rfl
        rw [bind_ok (Watch.aside_ok last)] at ends
        exact ends

end Forest

end Fluxion
