import Fluxion.Proofs.Sequencing

/-!
# Invariants

What a change keeps, it keeps whatever it comes to. What it gives may depend on what it has
kept, and is then known to the changes after it. Where it fails, the fault may be known too.
-/

namespace Fluxion

/-- From a state with the invariant the change comes to such a state, with a result of the kind
or with one of the faults. -/
def Ensures {ε σ α : Type} (inv : σ → Prop) (kind : α → Prop) (fault : ε → Prop)
    (x : EStateM ε σ α) : Prop :=
  ∀ s, inv s → match x s with
    | .ok a s => inv s ∧ kind a
    | .error e s => inv s ∧ fault e

namespace Ensures

section

variable {ε σ α β : Type} {inv : σ → Prop} {kind : α → Prop} {kind' : β → Prop}
  {fault : ε → Prop} {x : EStateM ε σ α}

theorem pure {a : α} (h : kind a) : Ensures inv kind fault (Pure.pure a : EStateM ε σ α) :=
  fun _ hs => ⟨hs, h⟩

theorem throw {e : ε} (h : fault e) :
    Ensures inv kind fault (MonadExcept.throw e : EStateM ε σ α) :=
  fun _ hs => ⟨hs, h⟩

theorem bind {k : α → EStateM ε σ β} (first : Ensures inv kind fault x)
    (rest : ∀ a, kind a → Ensures inv kind' fault (k a)) : Ensures inv kind' fault (x >>= k) := by
  intro s hs
  have after := first s hs
  cases hx : x s with
  | ok a s' =>
    rw [hx] at after
    rw [bind_ok hx]
    exact rest a after.2 s' after.1
  | error e s' =>
    rw [hx] at after
    rw [bind_error hx]
    exact after

/-- What the first change gives does not matter. -/
theorem andThen {k : α → EStateM ε σ β} (first : Ensures inv (fun _ => True) fault x)
    (rest : ∀ a, Ensures inv kind' fault (k a)) : Ensures inv kind' fault (x >>= k) :=
  first.bind fun a _ => rest a

theorem discard (h : Ensures inv kind fault x) :
    Ensures inv (fun _ => True) fault (Functor.discard x : EStateM ε σ PUnit) := by
  intro s hs
  have after := h s hs
  cases hx : x s with
  | ok a s' =>
    rw [hx] at after
    rw [discard_ok hx]
    exact ⟨after.1, trivial⟩
  | error e s' =>
    rw [hx] at after
    rw [discard_error hx]
    exact after

theorem map {k : α → β} (h : Ensures inv (fun a => kind' (k a)) fault x) :
    Ensures inv kind' fault (k <$> x) := by
  intro s hs
  have after := h s hs
  cases hx : x s with
  | ok a s' =>
    rw [hx] at after
    rw [map_ok k hx]
    exact after
  | error e s' =>
    rw [hx] at after
    rw [map_error k hx]
    exact after

theorem foldlM {γ : Type} {step : α → γ → EStateM ε σ α} {cs : List γ} {a : α}
    (steps : ∀ a, kind a → ∀ c ∈ cs, Ensures inv kind fault (step a c)) (start : kind a) :
    Ensures inv kind fault (cs.foldlM step a) := by
  induction cs generalizing a with
  | nil => exact pure start
  | cons c cs ih =>
    rw [List.foldlM_cons]
    apply bind (steps a start c List.mem_cons_self)
    intro b hb
    exact ih (fun a ha d hd => steps a ha d (List.mem_cons_of_mem c hd)) hb

end

variable {σ α : Type} {inv : Forest → Prop} {kind : α → Prop} {fault : Fault → Prop}
  {x : Edit α}

/-! ### Changes of a forest -/

theorem look {view : Forest → α} (h : ∀ f, inv f → kind (view f)) :
    Ensures inv kind fault (Edit.look view) :=
  fun f hf => ⟨hf, h f hf⟩

theorem require {check : Forest → Option Fault} (h : ∀ f e, check f = some e → fault e) :
    Ensures inv (fun _ => True) fault (Edit.require check) := by
  intro f hf
  cases hc : check f with
  | none => simpa only [Edit.require, hc] using ⟨hf, trivial⟩
  | some e => simpa only [Edit.require, hc] using ⟨hf, h f e hc⟩

/-- What a check has made sure of holds for the changes after it. -/
theorem requiring {holds : Forest → Prop} {check : Forest → Option Fault} {k : Unit → Edit α}
    (faults : ∀ f e, check f = some e → fault e) (passed : ∀ f, check f = none → holds f)
    (rest : Ensures (fun f => inv f ∧ holds f) kind fault (k ())) :
    Ensures inv kind fault (Edit.require check >>= k) := by
  intro f hf
  cases hc : check f with
  | some e =>
    rw [bind_error (Edit.require_error hc)]
    exact ⟨hf, faults f e hc⟩
  | none =>
    rw [bind_ok (Edit.require_ok hc)]
    have after := rest f ⟨hf, passed f hc⟩
    cases hx : k () f with
    | ok a g =>
      rw [hx] at after
      exact ⟨after.1.1, after.2⟩
    | error e g =>
      rw [hx] at after
      exact ⟨after.1.1, after.2⟩

theorem act (h : Ensures inv kind fault x) :
    Ensures (fun w : Watched σ => inv w.forest) kind fault (Watch.act x) := by
  rintro ⟨f, notes⟩ hf
  have after := h f hf
  cases hx : x f with
  | ok a g =>
    rw [hx] at after
    simpa only [Watch.act, hx] using after
  | error e g =>
    rw [hx] at after
    simpa only [Watch.act, hx] using after

/-- A change without reports leaves the notes alone. -/
theorem notes {inv : σ → Prop} (x : Edit α) : Ensures (fun w : Watched σ => inv w.notes)
    (fun _ => True) (fun _ => True) (Watch.act x) := by
  rintro ⟨f, notes⟩ h
  cases hx : x f with
  | ok a g => simpa only [Watch.act, hx] using ⟨h, trivial⟩
  | error e g => simpa only [Watch.act, hx] using ⟨h, trivial⟩

theorem report (sink : Sink σ) (r : Report) :
    Ensures (fun w : Watched σ => inv w.forest) (fun _ => True) fault (Watch.report sink r) :=
  fun _ hw => ⟨hw, trivial⟩

end Ensures

end Fluxion
