import Fluxion.Derivative.Expansion
import Fluxion.Proofs.Derivative.Construction
import Fluxion.Proofs.Forest.Packed
import Fluxion.Proofs.Registry
import Fluxion.Proofs.Simplification.Pass
import Mathlib.Logic.Function.Iterate

/-!
# Sequences of derivatives in standing trees

Once its symbol is in the registry, a derivative of any order can be taken. From the first
compaction on no tree stands beside the live one. The forests of several derivatives and the
forest of a Taylor polynomial hold a live tree and nothing else. Simplification settles in
one pass, so that the derivatives of a sequence are iterates of one function of terms.
-/

namespace Fluxion

variable {σ : Type} {f g : Forest} {m : Mark} {l : Tree} {ts : List Tree} {symbol : Char}

/-- A symbol that the registry of the mark has. -/
def Mark.Defines (m : Mark) (symbol : Char) : Prop := ∃ e, m.registry.findSymbol? symbol = some e

namespace Edit

theorem definedKey_ok {live : Option Tree} (h : f.Holds m live ts) (defined : m.Defines symbol) :
    definedKey symbol f = .ok (.ofSymbol symbol) f := by
  obtain ⟨e, he⟩ := defined
  have key : e.key = .ofSymbol symbol := Registry.key_of_find? he
  simp only [definedKey, Forest.definedKey, h.stands.registry, he, key]

theorem definedKey_error {live : Option Tree} (h : f.Holds m live ts)
    (undefined : ¬ m.Defines symbol) : definedKey symbol f = .error (.undefined symbol) f := by
  have none : m.registry.findSymbol? symbol = none := by
    rw [Option.eq_none_iff_forall_ne_some]
    exact fun e he => undefined ⟨e, he⟩
  simp only [definedKey, Forest.definedKey, h.stands.registry, none]

end Edit

namespace Watch

/-! ### The derivative of the live expression -/

theorem differentiateRoot_ok (sink : Sink σ) (notes : σ) (defined : m.Defines symbol)
    (h : f.Holds m (some l) ts) :
    ∃ u g notes', differentiateRoot sink symbol ⟨f, notes⟩ = .ok () ⟨g, notes'⟩ ∧
      u.term = l.term.derivative (.ofSymbol symbol) ∧ g.Holds m (some u) ts := by
  obtain ⟨u, g, notes', hg, term, held⟩ :=
    differentiate_part (k := []) sink (.ofSymbol symbol) notes h
  refine ⟨u, g, notes', ?_, term, held⟩
  rw [differentiateRoot, bind_ok (act_ok (Edit.definedKey_ok h defined)),
    bind_ok (act_ok h.rootIndex)]
  exact bind_ok hg

theorem differentiateRoot_error (sink : Sink σ) (notes : σ) (undefined : ¬ m.Defines symbol)
    (h : f.Holds m (some l) ts) :
    differentiateRoot sink symbol ⟨f, notes⟩ = .error (.undefined symbol) ⟨f, notes⟩ :=
  bind_error (act_error (Edit.definedKey_error h undefined))

end Watch

variable [Elementary]

/-- The derivative as it is after simplification. -/
def Term.slope (key : Key) (t : Term Key) : Term Key := (t.derivative key).pass

theorem Term.names_slopes_subset (key : Key) (n : Nat) (t : Term Key) :
    ((slope key)^[n] t).names ⊆ t.names := by
  induction n with
  | zero => exact List.Subset.refl _
  | succ n ih =>
    rw [Function.iterate_succ_apply']
    exact List.Subset.trans (names_pass_subset _)
      (List.Subset.trans (names_derivative_subset key _) ih)

namespace Watch

/-! ### From one derivative to the next -/

theorem advance_packed (sink : Sink σ) (notes : σ) (defined : m.Defines symbol)
    (h : f.Holds m (some l) ts) :
    ∃ g notes', advance sink symbol ⟨f, notes⟩ = .ok () ⟨g, notes'⟩ ∧
      g.Packed m.registry (l.term.slope (.ofSymbol symbol)) := by
  obtain ⟨u₁, f₁, notes₁, h₁, term₁, held⟩ := differentiateRoot_ok sink notes defined h
  obtain ⟨u₂, f₂, notes₂, n, h₂, term₂, held⟩ := simplify_spec sink notes₁ held
  have packed := held.compact_packed
  rw [term₂, Forest.settle_passLimit, term₁, ← Term.slope] at packed
  refine ⟨f₂.compact, notes₂, ?_, packed⟩
  rw [advance, bind_ok h₁, bind_ok (discard_ok h₂)]
  rfl

theorem advance_ok (sink : Sink σ) (notes : σ) (defined : m.Defines symbol)
    (h : f.Holds m (some l) ts) :
    ∃ u g notes', advance sink symbol ⟨f, notes⟩ = .ok () ⟨g, notes'⟩ ∧
      u.term = l.term.slope (.ofSymbol symbol) ∧ g.Holds m (some u) [] := by
  obtain ⟨g, notes', hg, packed⟩ := advance_packed sink notes defined h
  obtain ⟨u, term, held⟩ := packed.holds m.past
  exact ⟨u, g, notes', hg, term, held⟩

theorem advanceTimes_packed (sink : Sink σ) (n : Nat) (notes : σ) (defined : m.Defines symbol)
    (h : f.Holds m (some l) ts) :
    ∃ g notes', advanceTimes sink symbol (n + 1) ⟨f, notes⟩ = .ok () ⟨g, notes'⟩ ∧
      g.Packed m.registry ((Term.slope (.ofSymbol symbol))^[n + 1] l.term) := by
  induction n generalizing f l ts notes with
  | zero =>
    obtain ⟨g, notes₁, h₁, packed⟩ := advance_packed sink notes defined h
    obtain ⟨u, -, held⟩ := packed.holds 0
    refine ⟨g, sink g (.derivative u.top) notes₁, ?_, packed⟩
    rw [advanceTimes, bind_ok h₁, bind_ok (act_ok held.rootIndex), bind_ok (report_eq _ _)]
    rfl
  | succ n ih =>
    obtain ⟨u₁, f₁, notes₁, h₁, term₁, held⟩ := advance_ok sink notes defined h
    obtain ⟨g, notes', hg, packed⟩ := ih (sink f₁ (.derivative u₁.top) notes₁) held
    rw [term₁] at packed
    refine ⟨g, notes', ?_, packed⟩
    rw [advanceTimes, bind_ok h₁, bind_ok (act_ok held.rootIndex), bind_ok (report_eq _ _)]
    exact hg

theorem advanceTimes_ok (sink : Sink σ) (n : Nat) (notes : σ) (defined : m.Defines symbol)
    (h : f.Holds m (some l) ts) :
    ∃ u g notes', advanceTimes sink symbol n ⟨f, notes⟩ = .ok () ⟨g, notes'⟩ ∧
      u.term = (Term.slope (.ofSymbol symbol))^[n] l.term ∧
      g.Holds m (some u) (if n = 0 then ts else []) := by
  cases n with
  | zero => exact ⟨l, f, notes, rfl, rfl, h⟩
  | succ n =>
    obtain ⟨g, notes', hg, packed⟩ := advanceTimes_packed sink n notes defined h
    obtain ⟨u, term, held⟩ := packed.holds m.past
    exact ⟨u, g, notes', hg, term, held⟩

/-- After simplification, derivatives are taken one after the other. -/
theorem differentiateTimes_eq {sink : Sink σ} {notes notes' : σ} {k : Nat} (n : Nat)
    (defined : m.Defines symbol) (h : f.Holds m (some l) ts)
    (simplified : simplify sink ⟨f, sink f (.given l.top) notes⟩ = .ok k ⟨g, notes'⟩) :
    differentiateTimes sink symbol n ⟨f, notes⟩ = advanceTimes sink symbol n ⟨g, notes'⟩ := by
  rw [differentiateTimes, bind_ok (discard_ok (act_ok (Edit.definedKey_ok h defined))),
    bind_ok (act_ok h.rootIndex), bind_ok (report_eq _ _), bind_ok (discard_ok simplified)]

theorem differentiateTimes_packed (sink : Sink σ) (n : Nat) (notes : σ)
    (defined : m.Defines symbol) (h : f.Holds m (some l) ts) :
    ∃ g notes', differentiateTimes sink symbol (n + 1) ⟨f, notes⟩ = .ok () ⟨g, notes'⟩ ∧
      g.Packed m.registry ((Term.slope (.ofSymbol symbol))^[n + 1] l.term.pass) := by
  obtain ⟨u₁, f₁, notes₁, k, h₁, term₁, held⟩ :=
    simplify_spec sink (sink f (.given l.top) notes) h
  obtain ⟨g, notes', hg, packed⟩ := advanceTimes_packed sink n notes₁ defined held
  rw [term₁, Forest.settle_passLimit] at packed
  exact ⟨g, notes', (differentiateTimes_eq _ defined h h₁).trans hg, packed⟩

theorem differentiateTimes_ok (sink : Sink σ) (n : Nat) (notes : σ)
    (defined : m.Defines symbol) (h : f.Holds m (some l) ts) :
    ∃ u g notes', differentiateTimes sink symbol n ⟨f, notes⟩ = .ok () ⟨g, notes'⟩ ∧
      u.term = (Term.slope (.ofSymbol symbol))^[n] l.term.pass ∧
      g.Holds m (some u) (if n = 0 then ts else []) := by
  obtain ⟨u₁, f₁, notes₁, k, h₁, term₁, held⟩ :=
    simplify_spec sink (sink f (.given l.top) notes) h
  obtain ⟨u, g, notes', hg, term, held⟩ := advanceTimes_ok sink n notes₁ defined held
  rw [term₁, Forest.settle_passLimit] at term
  exact ⟨u, g, notes', (differentiateTimes_eq n defined h h₁).trans hg, term, held⟩

theorem differentiateTimes_error (sink : Sink σ) (n : Nat) (notes : σ)
    (undefined : ¬ m.Defines symbol) (h : f.Holds m (some l) ts) :
    differentiateTimes sink symbol n ⟨f, notes⟩ = .error (.undefined symbol) ⟨f, notes⟩ :=
  bind_error (discard_error (act_error (Edit.definedKey_error h undefined)))

/-! ### Forests of their own -/

/-- The forests of the derivatives hold the derivatives in increasing order. -/
theorem collect_ok (sink : Sink σ) (n : Nat) (notes : σ) (defined : m.Defines symbol)
    (h : f.Holds m (some l) ts) :
    ∃ gs w, collect sink symbol n ⟨f, notes⟩ = .ok gs w ∧ gs.length = n ∧
      ∀ (k : Nat) (g : Forest), gs[k]? = some g →
        g.Packed m.registry ((Term.slope (.ofSymbol symbol))^[k + 1] l.term) := by
  induction n generalizing f l ts notes with
  | zero => exact ⟨[], ⟨f, notes⟩, rfl, rfl, by simp⟩
  | succ n ih =>
    obtain ⟨g, notes₁, h₁, packed⟩ := advance_packed sink notes defined h
    obtain ⟨u, term, held⟩ := packed.holds m.past
    obtain ⟨gs, w, hw, length, rest⟩ := ih notes₁ held
    refine ⟨g :: gs, w, ?_, by rw [List.length_cons, length], ?_⟩
    · rw [collect, bind_ok h₁, bind_ok (look_eq _), bind_ok hw]
      rfl
    · intro k g' hk
      rw [term] at rest
      cases k with
      | zero =>
        cases hk
        exact packed
      | succ k => exact rest k g' hk

end Watch

namespace Forest

theorem derivatives_ok (sink : Sink σ) (n : Nat) (notes : σ) (defined : m.Defines symbol)
    (h : f.Holds m (some l) ts) :
    ∃ gs notes', f.derivatives sink symbol n notes = .ok gs notes' ∧ gs.length = n ∧
      ∀ (k : Nat) (g : Forest), gs[k]? = some g →
        g.Packed m.registry ((Term.slope (.ofSymbol symbol))^[k + 1] l.term.pass) := by
  obtain ⟨u₁, f₁, notes₁, k, h₁, term₁, held⟩ := Watch.simplify_spec sink notes h
  obtain ⟨gs, ⟨g, notes'⟩, hw, length, rest⟩ := Watch.collect_ok sink n notes₁ defined held
  rw [term₁, settle_passLimit] at rest
  refine ⟨gs, notes', ?_, length, rest⟩
  refine bind_ok (a := (gs, g)) (Watch.aside_ok ?_)
  rw [bind_ok (discard_ok (Watch.act_ok (Edit.definedKey_ok h defined))), bind_ok (discard_ok h₁)]
  exact hw

theorem derivatives_error (sink : Sink σ) (n : Nat) (notes : σ)
    (undefined : ¬ m.Defines symbol) (h : f.Holds m (some l) ts) :
    f.derivatives sink symbol n notes = .error (.undefined symbol) notes :=
  bind_error (Watch.aside_error
    (bind_error (discard_error (Watch.act_error (Edit.definedKey_error h undefined)))))

end Forest

/-! ### The two halves of an expansion -/

/-- The values that an expansion takes. -/
def Watch.gather (sink : Sink σ) (symbol : Char) (center : Float) (n : Nat) :
    Watch σ (List Float) := do
  discard (act (.definedKey symbol))
  discard (simplify sink)
  values sink symbol center n

/-- What an expansion makes of the values, in a forest of its own. -/
def Watch.assemble (sink : Sink σ) (symbol : Char) (center : Float) (vs : List Float) :
    Watch σ Unit := do
  discard (act (.register symbol))
  act do Edit.setRoot (← Edit.plant (Expansion.polynomial symbol center vs))
  discard (simplify sink)
  act .compact
  report sink (.expanded 0)

theorem Watch.gather_error (sink : Sink σ) (center : Float) (n : Nat) (notes : σ)
    {live : Option Tree} (undefined : ¬ m.Defines symbol) (h : f.Holds m live ts) :
    gather sink symbol center n ⟨f, notes⟩ = .error (.undefined symbol) ⟨f, notes⟩ :=
  bind_error (discard_error (act_error (Edit.definedKey_error h undefined)))

namespace Forest

variable {sink : Sink σ} {center : Float} {n : Nat} {notes notes' : σ} {vs : List Float}
  {w : Watched σ}

theorem expand_eq : f.expand sink symbol center n = do
    let (vs, _) ← (Watch.gather sink symbol center n).aside f
    return (← (Watch.assemble sink symbol center vs).aside .empty).2 :=
  rfl

/-- Whatever the values are, their simplified polynomial stands alone, and packed. -/
theorem expand_of_values (gathered : Watch.gather sink symbol center n ⟨f, notes⟩ = .ok vs w) :
    ∃ g notes', f.expand sink symbol center n notes = .ok g notes' ∧
      g.Packed ((Expansion.polynomial symbol center vs).names.foldl Registry.register
        (({} : Registry).register symbol))
        ((Expansion.polynomial symbol center vs).map Key.ofSymbol).pass := by
  obtain ⟨u₁, f₁, h₁, term₁, held⟩ := (empty_holds.reregister
    (empty.registry.register symbol)).plantRoot (Expansion.polynomial symbol center vs)
  obtain ⟨u₂, f₂, notes₂, k, h₂, term₂, held⟩ := Watch.simplify_spec sink w.notes held
  have packed := held.compact_packed
  rw [term₂, settle_passLimit, term₁] at packed
  refine ⟨f₂.compact, sink f₂.compact (.expanded 0) notes₂, ?_, packed⟩
  have assembled : Watch.assemble sink symbol center vs ⟨.empty, w.notes⟩ =
      .ok () ⟨f₂.compact, sink f₂.compact (.expanded 0) notes₂⟩ := by
    rw [Watch.assemble, bind_ok (discard_ok (Watch.act_ok (Edit.register_eq _ _))),
      bind_ok (Watch.act_ok h₁), bind_ok (discard_ok h₂)]
    rfl
  rw [expand_eq, bind_ok (Watch.aside_ok gathered)]
  exact bind_ok (Watch.aside_ok assembled)

theorem expand_of_missing {e : Fault}
    (missing : Watch.gather sink symbol center n ⟨f, notes⟩ = .error e w) :
    f.expand sink symbol center n notes = .error e w.notes := by
  rw [expand_eq]
  exact bind_error (Watch.aside_error missing)

theorem expand_eq_ok (made : f.expand sink symbol center n notes = .ok g notes') :
    ∃ vs w u, Watch.gather sink symbol center n ⟨f, notes⟩ = .ok vs w ∧
      u.term = ((Expansion.polynomial symbol center vs).map Key.ofSymbol).pass ∧
      g.Holds ⟨(Expansion.polynomial symbol center vs).names.foldl Registry.register
        (({} : Registry).register symbol), 0⟩ (some u) [] := by
  cases gathered : Watch.gather sink symbol center n ⟨f, notes⟩ with
  | error e w =>
    rw [expand_of_missing gathered] at made
    cases made
  | ok vs w =>
    obtain ⟨g', notes₁, made', packed⟩ := expand_of_values gathered
    rw [made] at made'
    cases made'
    obtain ⟨u, term, held⟩ := packed.holds 0
    exact ⟨vs, w, u, rfl, term, held⟩

end Forest

end Fluxion
