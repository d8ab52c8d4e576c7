import Fluxion.Derivative.Expansion
import Fluxion.Proofs.Derivative.Sequence
import Fluxion.Proofs.Registry
import Fluxion.Proofs.Reports
import Fluxion.Proofs.Simplification.Preservation

/-!
# What an expansion evaluates

An expansion evaluates the simplified expression and its derivatives at the centre, one after
the other, until one of them has no value. The evaluation of each order lies on its way, and the
forest that is evaluated there holds the term of that order in the sequence of derivatives. Values
are assigned on the way, but which derivatives there are does not depend on them.
-/

namespace Fluxion

theorem Mark.defines_of_assign {m : Mark} {symbol : Char} {x : Float} {r : Registry}
    (h : m.registry.assign? symbol x = some r) : m.Defines symbol :=
  Option.isSome_iff_exists.mp (Registry.isSome_of_assign h)

theorem Edit.assign_ok {f : Forest} {m : Mark} {live : Option Tree} {ts : List Tree} {symbol : Char}
    {x : Float} {r : Registry} (h : f.Holds m live ts)
    (assigned : m.registry.assign? symbol x = some r) :
    assign symbol x f = .ok () { f with registry := r } := by
  simp only [assign, h.stands.registry, assigned]

/-- The result is the list of the first `n` values, or the fault of the first of them that is
missing. -/
def Gathers (x : Nat → Except Fault Float) (n : Nat) : Except Fault (List Float) → Prop
  | .ok vs => vs.length = n ∧ ∀ k v, vs[k]? = some v → x k = .ok v
  | .error e => ∃ k < n, x k = .error e ∧ ∀ j < k, ∃ v, x j = .ok v

namespace Gathers

variable {x : Nat → Except Fault Float} {n : Nat}

theorem zero (x : Nat → Except Fault Float) : Gathers x 0 (.ok []) := by
  constructor
  · rfl
  · simp

theorem cons {v : Float} {result : Except Fault (List Float)} (first : x 0 = .ok v)
    (rest : Gathers (fun k => x (k + 1)) n result) :
    Gathers x (n + 1) (result.map (v :: ·)) := by
  cases result with
  | ok vs =>
    obtain ⟨length, values⟩ := rest
    constructor
    · rw [List.length_cons, length]
    · intro k w hk
      cases k with
      | zero =>
        cases hk
        exact first
      | succ k => exact values k w hk
  | error e =>
    obtain ⟨k, lt, failed, before⟩ := rest
    refine ⟨k + 1, Nat.succ_lt_succ lt, failed, fun j hj => ?_⟩
    cases j with
    | zero => exact ⟨v, first⟩
    | succ j => exact before j (Nat.lt_of_succ_lt_succ hj)

theorem fail {e : Fault} (failed : x 0 = .error e) : Gathers x (n + 1) (.error e) :=
  ⟨0, Nat.succ_pos n, failed, fun _ hj => absurd hj (Nat.not_lt_zero _)⟩

theorem eq_map_range {vs : List Float} {v : Nat → Float} (h : Gathers x n (.ok vs))
    (values : ∀ k < n, x k = .ok (v k)) : vs = (List.range n).map v := by
  obtain ⟨length, each⟩ := h
  refine List.ext_getElem (by simp [length]) fun k hk hk' => ?_
  have value := each k vs[k] (List.getElem?_eq_getElem hk)
  rw [values k (length ▸ hk)] at value
  simpa using (Except.ok.inj value).symm

/-- Only one fault can be the first. -/
theorem eq_error_iff {result : Except Fault (List Float)} (h : Gathers x n result) (e : Fault) :
    result = .error e ↔ ∃ k < n, x k = .error e ∧ ∀ j < k, ∃ v, x j = .ok v := by
  constructor
  · rintro rfl
    exact h
  · rintro ⟨k, lt, failed, before⟩
    cases result with
    | ok vs =>
      obtain ⟨length, values⟩ := h
      have inside : k < vs.length := by omega
      rw [values k vs[k] (List.getElem?_eq_getElem inside)] at failed
      cases failed
    | error e' =>
      obtain ⟨k', lt', failed', before'⟩ := h
      rcases Nat.lt_trichotomy k k' with less | rfl | more
      · obtain ⟨v, hv⟩ := before' k less
        rw [failed] at hv
        cases hv
      · rw [failed'] at failed
        cases failed
        rfl
      · obtain ⟨v, hv⟩ := before k' more
        rw [failed'] at hv
        cases hv

end Gathers

variable [Elementary] {σ : Type} {sink : Sink σ} {f g : Forest} {m : Mark} {l : Tree}
  {ts : List Tree} {symbol : Char} {center : Float} {r : Registry} {notes : σ}

namespace Watch

/-- The value of the live expression as it stands. -/
def valueNow (sink : Sink σ) : Watch σ Float := do
  let root ← act .rootIndex
  match ← look (·.evaluate root) with
  | .ok v => return v
  | .error fault =>
    report sink (.evaluationFailed root fault)
    throw fault

theorem valueAt_eq_valueNow (sink : Sink σ) (symbol : Char) (center : Float) :
    valueAt sink symbol center = (do
      act (.assign symbol center)
      valueNow sink) :=
  rfl

theorem valueNow_eq (sink : Sink σ) (notes : σ) (h : f.Holds m (some l) ts) :
    valueNow sink ⟨f, notes⟩ =
      match f.value with
      | .ok v => .ok v ⟨f, notes⟩
      | .error e => .error e ⟨f, sink f (.evaluationFailed l.top e) notes⟩ := by
  rw [h.value_eq, ← h.fits_live.evaluate_eq, valueNow, bind_ok (act_ok h.rootIndex),
    bind_ok (look_eq _)]
  cases f.evaluate l.top <;> rfl

theorem value_of_valueNow {v : Float} {w : Watched σ} (h : f.Holds m (some l) ts)
    (taken : valueNow sink ⟨f, notes⟩ = .ok v w) : f.value = .ok v := by
  rw [valueNow_eq sink notes h] at taken
  cases value : f.value with
  | ok x =>
    rw [value] at taken
    cases taken
    rfl
  | error e =>
    rw [value] at taken
    cases taken

/-- The centre stays assigned. -/
theorem valueAt_eq (sink : Sink σ) (notes : σ) (h : f.Holds m (some l) ts)
    (assigned : m.registry.assign? symbol center = some r) :
    valueAt sink symbol center ⟨f, notes⟩ =
      match l.term.value r with
      | .ok v => .ok v ⟨{ f with registry := r }, notes⟩
      | .error e => .error e ⟨{ f with registry := r },
          sink { f with registry := r } (.evaluationFailed l.top e) notes⟩ := by
  have held := h.reregister r
  rw [valueAt_eq_valueNow, bind_ok (act_ok (Edit.assign_ok h assigned)),
    valueNow_eq sink notes held, held.value_eq]

/-- The value of the live expression, and then further ones. -/
theorem gathers_valueAt (sink : Sink σ) {n : Nat} {x : Nat → Except Fault Float}
    {further : Watch σ (List Float)} {notes : σ} (h : f.Holds m (some l) ts)
    (assigned : m.registry.assign? symbol center = some r) (first : l.term.value r = x 0)
    (rest : Gathers (fun k => x (k + 1)) n
      (outcome (further ⟨{ f with registry := r }, notes⟩)).1) :
    Gathers x (n + 1) (outcome ((do
      let v ← valueAt sink symbol center
      return v :: (← further) : Watch σ (List Float)) ⟨f, notes⟩)).1 := by
  have value := valueAt_eq sink notes h assigned
  rw [first] at value
  cases hv : x 0 with
  | error e =>
    rw [hv] at value
    rw [bind_error value]
    exact .fail hv
  | ok v =>
    rw [hv] at value
    rw [bind_ok value]
    have all := rest.cons hv
    cases hw : further ⟨{ f with registry := r }, notes⟩ with
    | ok vs w =>
      rw [hw] at all
      rw [bind_ok hw]
      exact all
    | error e w =>
      rw [hw] at all
      rw [bind_error hw]
      exact all

/-! ### Further derivatives, once the centre is assigned -/

theorem furtherValues_gathers (sink : Sink σ) (n : Nat) (notes : σ) (h : f.Holds m (some l) ts)
    (assigned : m.registry.assign? symbol center = some m.registry) :
    Gathers (fun k => ((Term.slope (.ofSymbol symbol))^[k + 1] l.term).value m.registry) n
      (outcome (furtherValues sink symbol center n ⟨f, notes⟩)).1 := by
  induction n generalizing f l ts notes with
  | zero => exact .zero _
  | succ n ih =>
    obtain ⟨u, g, notes₁, h₁, term, held⟩ :=
      advance_ok sink notes (Mark.defines_of_assign assigned) h
    have rest := ih notes₁ (held.reregister m.registry)
    rw [term] at rest
    rw [furtherValues, bind_ok h₁]
    refine gathers_valueAt sink held assigned ?_ rest
    rw [term]
    rfl

/-! ### The expression and its derivatives -/

theorem values_gathers (sink : Sink σ) (n : Nat) (notes : σ) (h : f.Holds m (some l) ts)
    (assigned : m.registry.assign? symbol center = some r) :
    Gathers (fun k => ((Term.slope (.ofSymbol symbol))^[k] l.term).value r) n
      (outcome (values sink symbol center n ⟨f, notes⟩)).1 := by
  cases n with
  | zero => exact .zero _
  | succ n =>
    have held := h.reregister r
    have again := Registry.assign_again assigned
    exact gathers_valueAt sink h assigned rfl (furtherValues_gathers sink n notes held again)

end Watch

namespace Forest

/-- Values are taken of the simplified expression. -/
theorem Holds.gather_eq (center : Float) (n : Nat) {total : Nat} {notes notes' : σ}
    (h : f.Holds m (some l) ts) (defined : m.Defines symbol)
    (simplified : Watch.simplify sink ⟨f, notes⟩ = .ok total ⟨g, notes'⟩) :
    Watch.gather sink symbol center n ⟨f, notes⟩ =
      Watch.values sink symbol center n ⟨g, notes'⟩ := by
  rw [Watch.gather, bind_ok (discard_ok (Watch.act_ok (Edit.definedKey_ok h defined))),
    bind_ok (discard_ok simplified)]

/-- The values that are taken are those of the derivatives. -/
theorem Holds.gathers (sink : Sink σ) (n : Nat) (notes : σ) (h : f.Holds m (some l) ts)
    (assigned : m.registry.assign? symbol center = some r) :
    Gathers (fun k => ((Term.slope (.ofSymbol symbol))^[k] l.term.pass).value r) n
      (Watch.outcome (Watch.gather sink symbol center n ⟨f, notes⟩)).1 := by
  obtain ⟨u, g, notes', total, simplified, term, held⟩ := Watch.simplify_spec sink notes h
  rw [h.gather_eq center n (Mark.defines_of_assign assigned) simplified, ← settle_passLimit,
    ← term]
  exact Watch.values_gathers sink n notes' held assigned

end Forest

/-! ### The way to an evaluation -/

namespace Watch

/-- The way of an expansion up to the evaluation of order `k`, with the values that were taken on
it. At its end the forest is as it is evaluated. -/
def approach (sink : Sink σ) (symbol : Char) (center : Float) : Nat → Watch σ (List Float)
  | 0 => do
    discard (act (.definedKey symbol))
    discard (simplify sink)
    act (.assign symbol center)
    return []
  | k + 1 => do
    let vs ← approach sink symbol center k
    let v ← valueNow sink
    advance sink symbol
    act (.assign symbol center)
    return vs ++ [v]

/-- An expansion goes this way. It takes the values before that of order `k` on it, then that one
and then the further ones. -/
theorem gather_eq_approach (sink : Sink σ) (symbol : Char) (center : Float) (k n : Nat) :
    gather sink symbol center (k + 1 + n) = do
      let vs ← approach sink symbol center k
      let v ← valueNow sink
      return vs ++ v :: (← furtherValues sink symbol center n) := by
  induction k generalizing n with
  | zero =>
    rw [Nat.zero_add, Nat.add_comm, gather, approach, values, valueAt_eq_valueNow]
    simp only [bind_assoc, pure_bind, List.nil_append]
  | succ k ih =>
    rw [Nat.add_right_comm, Nat.add_assoc, ih, approach, furtherValues, valueAt_eq_valueNow]
    simp only [bind_assoc, pure_bind, List.append_assoc, List.singleton_append]

theorem approach_zero (sink : Sink σ) (notes : σ) (h : f.Holds m (some l) ts)
    (assigned : m.registry.assign? symbol center = some r) :
    ∃ u g notes' total, simplify sink ⟨f, notes⟩ = .ok total ⟨g, notes'⟩ ∧
      u.term = l.term.pass ∧ g.Holds m (some u) ts ∧
      approach sink symbol center 0 ⟨f, notes⟩ = .ok [] ⟨{ g with registry := r }, notes'⟩ := by
  obtain ⟨u, g, notes', total, simplified, term, held⟩ := simplify_spec sink notes h
  rw [Forest.settle_passLimit] at term
  have key := Edit.definedKey_ok h (Mark.defines_of_assign assigned)
  refine ⟨u, g, notes', total, simplified, term, held, ?_⟩
  rw [approach, bind_ok (discard_ok (act_ok key)), bind_ok (discard_ok simplified),
    bind_ok (act_ok (Edit.assign_ok held assigned))]
  rfl

/-- From one evaluation to the next, if there is a value. -/
theorem approach_succ {k : Nat} {vs : List Float} {v : Float} {w : Watched σ}
    (reached : approach sink symbol center k w = .ok vs ⟨f, notes⟩) (h : f.Holds m (some l) ts)
    (assigned : m.registry.assign? symbol center = some m.registry) (value : f.value = .ok v) :
    ∃ g notes', approach sink symbol center (k + 1) w = .ok (vs ++ [v]) ⟨g, notes'⟩ ∧
      g.Packed m.registry (l.term.slope (.ofSymbol symbol)) := by
  have now := valueNow_eq sink notes h
  rw [value] at now
  obtain ⟨g, notes', next, packed⟩ := advance_packed sink notes (Mark.defines_of_assign assigned) h
  obtain ⟨u, -, held⟩ := packed.holds m.past
  refine ⟨{ g with registry := m.registry }, notes', ?_, packed.reregister m.registry⟩
  rw [approach, bind_ok reached, bind_ok now, bind_ok next,
    bind_ok (act_ok (Edit.assign_ok held assigned))]
  rfl

/-- An evaluation comes after one that had a value. -/
theorem exists_value_of_approach {k : Nat} {vs : List Float} {w w' : Watched σ}
    (reached : approach sink symbol center (k + 1) w = .ok vs w') :
    ∃ us f notes, approach sink symbol center k w = .ok us ⟨f, notes⟩ ∧
      ∃ v w'', valueNow sink ⟨f, notes⟩ = .ok v w'' := by
  obtain ⟨us, w₁, before, rest⟩ := bind_eq_ok reached
  obtain ⟨v, w₂, value, -⟩ := bind_eq_ok rest
  exact ⟨us, w₁.forest, w₁.notes, before, v, w₂, value⟩

end Watch

namespace Forest

/-- What is evaluated is the term of its order. But for the first of them, the forest holds nothing
else. -/
theorem Holds.approach {k : Nat} {vs : List Float} {notes' : σ} (h : f.Holds m (some l) ts)
    (assigned : m.registry.assign? symbol center = some r)
    (reached : Watch.approach sink symbol center k ⟨f, notes⟩ = .ok vs ⟨g, notes'⟩) :
    vs.length = k ∧
      (∃ u us, u.term = (Term.slope (.ofSymbol symbol))^[k] l.term.pass ∧
        g.Holds ⟨r, m.past⟩ (some u) us) ∧
      (k ≠ 0 → g.Packed r ((Term.slope (.ofSymbol symbol))^[k] l.term.pass)) := by
  induction k generalizing g vs notes' with
  | zero =>
    obtain ⟨u, g', notes₁, total, -, term, held, start⟩ :=
      Watch.approach_zero sink notes h assigned
    cases start.symm.trans reached
    exact ⟨rfl, ⟨u, ts, term, held.reregister r⟩, fun first => absurd rfl first⟩
  | succ k ih =>
    obtain ⟨us, s, notes₁, before, v, w, taken⟩ := Watch.exists_value_of_approach reached
    obtain ⟨length, ⟨u, us', term, held⟩, -⟩ := ih before
    obtain ⟨g', notes₂, next, packed⟩ := Watch.approach_succ before held
      (Registry.assign_again assigned) (Watch.value_of_valueNow held taken)
    cases next.symm.trans reached
    rw [term, ← Function.iterate_succ_apply' (Term.slope _)] at packed
    obtain ⟨u', term', held'⟩ := packed.holds m.past
    refine ⟨?_, ⟨u', [], term', held'⟩, fun _ => packed⟩
    rw [List.length_append, length, List.length_singleton]

/-- The evaluation of an order is reached if its predecessors have values. -/
theorem Holds.exists_approach (sink : Sink σ) (k : Nat) (notes : σ) (h : f.Holds m (some l) ts)
    (assigned : m.registry.assign? symbol center = some r)
    (before : ∀ j < k, ∃ vs s notes' v,
      Watch.approach sink symbol center j ⟨f, notes⟩ = .ok vs ⟨s, notes'⟩ ∧ s.value = .ok v) :
    ∃ vs s notes', Watch.approach sink symbol center k ⟨f, notes⟩ = .ok vs ⟨s, notes'⟩ := by
  cases k with
  | zero =>
    obtain ⟨-, g, notes', -, -, -, -, start⟩ := Watch.approach_zero sink notes h assigned
    exact ⟨[], _, notes', start⟩
  | succ k =>
    obtain ⟨vs, s, notes', v, reached, value⟩ := before k (Nat.lt_succ_self k)
    obtain ⟨-, ⟨u, us, -, held⟩, -⟩ := h.approach assigned reached
    obtain ⟨g, notes'', next, -⟩ :=
      Watch.approach_succ reached held (Registry.assign_again assigned) value
    exact ⟨_, g, notes'', next⟩

/-- An expansion evaluates what its way comes to, and goes on from there with the value. -/
theorem expand_of_approach {k : Nat} (n : Nat) {vs : List Float} {v : Float} {notes' : σ}
    (reached : Watch.approach sink symbol center k ⟨f, notes⟩ = .ok vs ⟨g, notes'⟩)
    (h : g.Holds m (some l) ts) (value : g.value = .ok v) :
    f.expand sink symbol center (k + 1 + n) notes = (do
      let (ws, _) ← (Watch.furtherValues sink symbol center n).aside g
      return (← (Watch.assemble sink symbol center (vs ++ v :: ws)).aside .empty).2) notes' := by
  have now := Watch.valueNow_eq sink notes' h
  rw [value] at now
  have gathered := congrFun (Watch.gather_eq_approach sink symbol center k n) ⟨f, notes⟩
  rw [bind_ok reached, bind_ok now] at gathered
  cases further : Watch.furtherValues sink symbol center n ⟨g, notes'⟩ with
  | ok ws w =>
    rw [bind_ok further] at gathered
    rw [expand_eq, bind_ok (Watch.aside_ok gathered), bind_ok (Watch.aside_ok further)]
  | error e w =>
    rw [bind_error further] at gathered
    rw [expand_eq, bind_error (Watch.aside_error gathered), bind_error (Watch.aside_error further)]

/-- If it has no value, the expansion fails. -/
theorem expand_of_approach_error {k : Nat} (n : Nat) {vs : List Float} {e : Fault} {notes' : σ}
    (reached : Watch.approach sink symbol center k ⟨f, notes⟩ = .ok vs ⟨g, notes'⟩)
    (h : g.Holds m (some l) ts) (failed : g.value = .error e) :
    f.expand sink symbol center (k + 1 + n) notes =
      .error e (sink g (.evaluationFailed l.top e) notes') := by
  have now := Watch.valueNow_eq sink notes' h
  rw [failed] at now
  have gathered := congrFun (Watch.gather_eq_approach sink symbol center k n) ⟨f, notes⟩
  rw [bind_ok reached, bind_error now] at gathered
  exact expand_of_missing gathered

end Forest

end Fluxion
