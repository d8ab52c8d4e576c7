import Fluxion.Journal.Sinks
import Fluxion.Proofs.Derivative.Sampling
import Fluxion.Proofs.Forest.Shape

/-!
# Jets

The jet of an expression at a centre consists of the values there of the simplified
expression and of its derivatives, each simplified before the next one is taken.
-/

namespace Fluxion

/-! ### Finite derivatives -/

section

variable {r : Registry} {t : Term Key} {key : Key}

theorem Recipe.finite_term {operand slope : Side → Term Key} {recipe : Recipe}
    (numbers : recipe.numbers.all Float.isFinite = true)
    (operands : ∀ side, (operand side).Finite r) (slopes : ∀ side, (slope side).Finite r) :
    (recipe.term operand slope).Finite r := by
  induction recipe with
  | number x =>
    rw [Recipe.numbers, List.all_cons, Bool.and_eq_true] at numbers
    exact numbers.1
  | operand side => exact operands side
  | slope side => exact slopes side
  | unary op recipe ih => exact ih numbers
  | binary op left right ihl ihr =>
    rw [Recipe.numbers, List.all_append, Bool.and_eq_true] at numbers
    exact ⟨ihl numbers.1, ihr numbers.2⟩
  | rightFirst op left right ihl ihr =>
    rw [Recipe.numbers, List.all_append, Bool.and_eq_true] at numbers
    exact ⟨ihl numbers.1, ihr numbers.2⟩

theorem Unary.finite_recipe (op : Unary) : op.recipe.numbers.all Float.isFinite = true := by
  cases op <;> rfl

theorem Binary.finite_recipe (op : Binary) (onLeft onRight : Bool) :
    (op.recipe onLeft onRight).numbers.all Float.isFinite = true := by
  cases op <;> cases onLeft <;> cases onRight <;> rfl

theorem onSides_of {α : Type} {p : α → Prop} {a b : α} (ha : p a) (hb : p b) (side : Side) :
    p (onSides a b side) := by
  cases side with
  | left => exact ha
  | right => exact hb

/-- The derivative of a finite term is finite. -/
theorem Term.Finite.derivative (h : t.Finite r) : (t.derivative key).Finite r := by
  induction t with
  | number x => rfl
  | var k =>
    rw [Term.derivative]
    split
    · rfl
    · rfl
  | unary op t ih =>
    exact Recipe.finite_term op.finite_recipe (fun _ => h) fun _ => ih h
  | binary op s t ihs iht =>
    exact Recipe.finite_term (op.finite_recipe _ _) (onSides_of h.1 h.2)
      (onSides_of (ihs h.1) (iht h.2))

end

variable [Elementary] {σ : Type} {f g : Forest} {m : Mark} {l : Tree} {ts : List Tree}
  {symbol : Char} {center x : Float} {r : Registry} {notes notes' : σ} {vs vs' : List Float}

theorem Term.Finite.slopes {t : Term Key} (h : t.Finite r) (key : Key) (k : Nat) :
    ((Term.slope key)^[k] t).Finite r := by
  induction k generalizing t with
  | zero => exact h
  | succ k ih => exact ih h.derivative.pass

/-! ### Jets -/

namespace Forest

/-- The value of the live expression with the symbol at `x`. -/
def valueWith (f : Forest) (symbol : Char) (x : Float) : Except Fault Float :=
  match f.registry.assign? symbol x with
  | some r => { f with registry := r }.value
  | none => .error (.undefined symbol)

/-- `vs` are the values at the centre of the simplified expression and of its derivatives. -/
def Jet (f : Forest) (symbol : Char) (center : Float) (vs : List Float) : Prop :=
  ∃ total simplified gs,
    Watch.simplify Sink.silent ⟨f, ()⟩ = .ok total ⟨simplified, ()⟩ ∧
    f.derivatives Sink.silent symbol vs.length () = .ok gs () ∧
    ∀ (k : Nat) (v : Float), vs[k]? = some v →
      ∃ g : Forest, (simplified :: gs)[k]? = some g ∧ g.valueWith symbol center = .ok v

theorem Holds.valueWith_eq (h : f.Holds m (some l) ts)
    (assigned : m.registry.assign? symbol x = some r) :
    f.valueWith symbol x = l.term.value r := by
  rw [valueWith, h.stands.registry, assigned]
  exact (h.reregister r).value_eq

/-- The forests whose values are the jet. -/
theorem Holds.derivatives_spec (h : f.Holds m (some l) ts) (defined : m.Defines symbol)
    (n : Nat) : ∃ total simplified gs,
      Watch.simplify Sink.silent ⟨f, ()⟩ = .ok total ⟨simplified, ()⟩ ∧
      f.derivatives Sink.silent symbol n () = .ok gs () ∧ gs.length = n ∧
      ∀ (k : Nat) (g : Forest), (simplified :: gs)[k]? = some g →
        ∃ u us, u.term = (Term.slope (.ofSymbol symbol))^[k] l.term.pass ∧
          g.Holds m (some u) us := by
  obtain ⟨u, f₁, notes, total, h₁, term, held⟩ := Watch.simplify_spec Sink.silent () h
  obtain ⟨gs, notes', h₂, length, rest⟩ := derivatives_ok Sink.silent n () defined h
  rw [settle_passLimit] at term
  refine ⟨total, f₁, gs, h₁, h₂, length, ?_⟩
  intro k g hk
  cases k with
  | zero =>
    cases hk
    exact ⟨u, ts, term, held⟩
  | succ k =>
    obtain ⟨u', term', held'⟩ := (rest k g hk).holds m.past
    exact ⟨u', [], term', held'⟩

/-- The jet of a live tree, by recursion on its term. -/
theorem Holds.jet_iff (h : f.Holds m (some l) ts)
    (assigned : m.registry.assign? symbol center = some r) :
    f.Jet symbol center vs ↔ ∀ k v, vs[k]? = some v →
      ((Term.slope (.ofSymbol symbol))^[k] l.term.pass).value r = .ok v := by
  obtain ⟨total, simplified, gs, h₁, h₂, length, terms⟩ :=
    h.derivatives_spec (Mark.defines_of_assign assigned) vs.length
  constructor
  · rintro ⟨total', simplified', gs', h₁', h₂', values⟩ k v hv
    rw [h₁] at h₁'
    rw [h₂] at h₂'
    cases h₁'
    cases h₂'
    obtain ⟨g, hg, value⟩ := values k v hv
    obtain ⟨u, us, term, held⟩ := terms k g hg
    rw [held.valueWith_eq assigned, term] at value
    exact value
  · intro values
    refine ⟨total, simplified, gs, h₁, h₂, ?_⟩
    intro k v hv
    have lt : k < (simplified :: gs).length := by
      have := (List.getElem?_eq_some_iff.mp hv).1
      rw [List.length_cons]
      omega
    obtain ⟨u, us, term, held⟩ := terms k _ (List.getElem?_eq_getElem lt)
    refine ⟨_, List.getElem?_eq_getElem lt, ?_⟩
    rw [held.valueWith_eq assigned, term]
    exact values k v hv

/-- An expression has one jet of each length. -/
theorem Jet.unique (h : f.Jet symbol center vs) (h' : f.Jet symbol center vs')
    (length : vs.length = vs'.length) : vs = vs' := by
  obtain ⟨total, simplified, gs, h₁, h₂, values⟩ := h
  obtain ⟨total', simplified', gs', h₁', h₂', values'⟩ := h'
  rw [h₁] at h₁'
  rw [length, h₂'] at h₂
  cases h₁'
  cases h₂
  apply List.ext_getElem length
  intro k hk hk'
  obtain ⟨g, hg, value⟩ := values k _ (List.getElem?_eq_getElem hk)
  obtain ⟨g', hg', value'⟩ := values' k _ (List.getElem?_eq_getElem hk')
  rw [hg] at hg'
  cases hg'
  exact Except.ok.inj (value.symm.trans value')

end Forest

end Fluxion
