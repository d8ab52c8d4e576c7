import Fluxion.Proofs.Derivative.Upheld
import Fluxion.Proofs.Runs

/-!
# Invariants of operations

An invariant that the edits and compaction uphold is kept by every operation, whether it
succeeds or fails, if a part that comes from another forest has no other numbers than it may.
-/

namespace Fluxion

/-- The forest after an operation, whether it succeeds or fails. -/
def Forest.afterOperation {σ : Type} [Elementary] (f : Forest) (sink : Sink σ) (notes : σ)
    (op : Operation) : Forest :=
  ((⟨f, []⟩ : Workspace).after sink notes op).forest

variable {σ α : Type} {P : Float → Prop} {fault : Fault → Prop} {inv : Forest → Prop}

theorem Operation.resultless_upholds {x : Watch σ α} (h : x.Upholds inv fault) :
    (resultless x).Upholds inv fault :=
  .andThen (.discard h) fun _ => .pure trivial

variable [Elementary]

namespace Upheld

open Operation

variable (up : Upheld P fault inv) (stable : Stable P) (sink : Sink σ) {op : Operation}
  (compact : op = .compact ∨ (∃ symbol n, op = .differentiateTimes symbol n) →
    ∀ f, inv f → inv f.compact)
  (own : ∀ other i, op = .graft other i → other.Numbers P)

include up stable compact own

theorem change : (op.change sink).Upholds inv fault := by
  cases op with
  | simplify => exact resultless_upholds (up.simplify stable sink)
  | differentiate i key => exact resultless_upholds (up.differentiate stable sink i key)
  | differentiateRoot symbol => exact resultless_upholds (up.differentiateRoot stable sink symbol)
  | differentiateTimes symbol n =>
    exact resultless_upholds (up.differentiateTimes stable sink
      (compact (Or.inr ⟨symbol, n, rfl⟩)) symbol n)
  | compact =>
    exact resultless_upholds (.act fun f hf => ⟨compact (Or.inl rfl) f hf, trivial⟩)
  | copy i => exact .map (.act (up.copy i))
  | graft other i => exact .map (.act (up.graft (own other i rfl) i))
  | replace old new => exact resultless_upholds (.act (up.replace old new))
  | register symbol => exact resultless_upholds (.act (up.register symbol))
  | assign symbol value => exact resultless_upholds (.act (up.assign symbol value))
  | clear => exact resultless_upholds (.act up.clear)

theorem afterOperation {f : Forest} (hf : inv f) (notes : σ) :
    inv (f.afterOperation sink notes op) := by
  have after := up.change stable sink compact own ⟨f, notes⟩ hf
  unfold Forest.afterOperation Workspace.after
  cases hx : op.change sink ⟨f, notes⟩ with
  | ok made w =>
    rw [hx] at after
    exact after.1
  | error e w =>
    rw [hx] at after
    exact after.1

end Upheld

end Fluxion
