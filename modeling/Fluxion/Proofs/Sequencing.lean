import Fluxion.Journal.Report

/-!
# Sequences of edits

An edit that goes on after a success, or ends with a fault, and what a change that reports
does when the edit in it is known.
-/

namespace Fluxion

section

variable {ε σ α β : Type}

theorem bind_ok {x : EStateM ε σ α} {k : α → EStateM ε σ β} {s s' : σ} {a : α}
    (h : x s = .ok a s') : (x >>= k) s = k a s' := by
  simp only [bind, EStateM.bind, h]

theorem bind_error {x : EStateM ε σ α} {k : α → EStateM ε σ β} {s s' : σ} {e : ε}
    (h : x s = .error e s') : (x >>= k) s = .error e s' := by
  simp only [bind, EStateM.bind, h]

/-- Both parts of a sequence that succeeds have succeeded. -/
theorem bind_eq_ok {x : EStateM ε σ α} {k : α → EStateM ε σ β} {s s' : σ} {b : β}
    (h : (x >>= k) s = .ok b s') : ∃ a s₁, x s = .ok a s₁ ∧ k a s₁ = .ok b s' := by
  simp only [bind, EStateM.bind] at h
  split at h
  · next a s₁ hx => exact ⟨a, s₁, hx, h⟩
  · cases h

/-- A sequence fails in its first part or in its second one. -/
theorem bind_eq_error {x : EStateM ε σ α} {k : α → EStateM ε σ β} {s s' : σ} {e : ε}
    (h : (x >>= k) s = .error e s') :
    x s = .error e s' ∨ ∃ a s₁, x s = .ok a s₁ ∧ k a s₁ = .error e s' := by
  simp only [bind, EStateM.bind] at h
  split at h
  · next a s₁ hx => exact Or.inr ⟨a, s₁, hx, h⟩
  · next hx =>
    cases h
    exact Or.inl hx

theorem map_ok {x : EStateM ε σ α} (k : α → β) {s s' : σ} {a : α} (h : x s = .ok a s') :
    (k <$> x) s = .ok (k a) s' := by
  simp only [Functor.map, EStateM.map, h]

theorem map_error {x : EStateM ε σ α} (k : α → β) {s s' : σ} {e : ε}
    (h : x s = .error e s') : (k <$> x) s = .error e s' := by
  simp only [Functor.map, EStateM.map, h]

theorem discard_ok {x : EStateM ε σ α} {s s' : σ} {a : α} (h : x s = .ok a s') :
    (discard x : EStateM ε σ PUnit) s = .ok ⟨⟩ s' := by
  simp only [discard, Functor.discard, Functor.mapConst, EStateM.map, Function.comp,
    Function.const, h]

theorem discard_error {x : EStateM ε σ α} {s s' : σ} {e : ε} (h : x s = .error e s') :
    (discard x : EStateM ε σ PUnit) s = .error e s' := by
  simp only [discard, Functor.discard, Functor.mapConst, EStateM.map, Function.comp, h]

end

theorem Except.bind_eq_ok {ε α β : Type} {x : Except ε α} {k : α → Except ε β} {b : β}
    (h : (x >>= k) = .ok b) : ∃ a, x = .ok a ∧ k a = .ok b := by
  cases x with
  | ok a => exact ⟨a, rfl, h⟩
  | error e => cases h

theorem Except.bind_eq_error {ε α β : Type} {x : Except ε α} {k : α → Except ε β} {e : ε}
    (h : x >>= k = .error e) : x = .error e ∨ ∃ a, x = .ok a ∧ k a = .error e := by
  cases x with
  | error e' =>
    cases h
    exact Or.inl rfl
  | ok a => exact Or.inr ⟨a, rfl, h⟩

section

variable {ε δ α β : Type} {x : Except ε α}

theorem Except.map_eq_ok_iff {k : α → β} {b : β} :
    x.map k = .ok b ↔ ∃ a, x = .ok a ∧ k a = b := by
  cases x <;> simp [Except.map]

theorem Except.map_eq_error_iff {k : α → β} {e : ε} : x.map k = .error e ↔ x = .error e := by
  cases x <;> simp [Except.map]

theorem Except.mapError_eq_ok_iff {k : ε → δ} {a : α} : x.mapError k = .ok a ↔ x = .ok a := by
  cases x with
  | error e => exact ⟨nofun, nofun⟩
  | ok b =>
    change Except.ok b = Except.ok a ↔ _
    simp only [Except.ok.injEq]

theorem Except.mapError_eq_error_iff {k : ε → δ} {d : δ} :
    x.mapError k = .error d ↔ ∃ e, x = .error e ∧ k e = d := by
  cases x with
  | error e =>
    change Except.error (k e) = Except.error d ↔ _
    simp
  | ok a => exact ⟨nofun, nofun⟩

end

namespace Edit

variable {α : Type} {f g : Forest} {a : α} {e : Fault}

theorem require_ok {check : Forest → Option Fault} (h : check f = none) :
    require check f = .ok () f := by
  simp only [require, h]

theorem require_error {check : Forest → Option Fault} (h : check f = some e) :
    require check f = .error e f := by
  simp only [require, h]

end Edit

namespace Watch

variable {σ α : Type} {f g : Forest} {a : α} {e : Fault} {notes : σ}

theorem act_ok {x : Edit α} (h : x f = .ok a g) :
    (act x : Watch σ α) ⟨f, notes⟩ = .ok a ⟨g, notes⟩ := by
  simp only [act, h]

theorem act_error {x : Edit α} (h : x f = .error e g) :
    (act x : Watch σ α) ⟨f, notes⟩ = .error e ⟨g, notes⟩ := by
  simp only [act, h]

theorem act_eq_error {x : Edit α} {notes' : σ}
    (h : (act x : Watch σ α) ⟨f, notes⟩ = .error e ⟨g, notes'⟩) : x f = .error e g := by
  cases hx : x f with
  | ok a g' =>
    rw [act_ok hx] at h
    cases h
  | error e' g' =>
    rw [act_error hx] at h
    cases h
    rfl

theorem look_eq (view : Forest → α) :
    (look view : Watch σ α) ⟨f, notes⟩ = .ok (view f) ⟨f, notes⟩ := rfl

theorem report_eq (sink : Sink σ) (r : Report) :
    report sink r ⟨f, notes⟩ = .ok () ⟨f, sink f r notes⟩ := rfl

theorem aside_ok {x : Watch σ α} {notes' : σ} (h : x ⟨f, notes⟩ = .ok a ⟨g, notes'⟩) :
    x.aside f notes = .ok (a, g) notes' := by
  simp only [aside, h]

theorem aside_error {x : Watch σ α} {notes' : σ} (h : x ⟨f, notes⟩ = .error e ⟨g, notes'⟩) :
    x.aside f notes = .error e notes' := by
  simp only [aside, h]

theorem aside_eq_ok {x : Watch σ α} {p : α × Forest} {notes' : σ}
    (h : x.aside f notes = .ok p notes') : x ⟨f, notes⟩ = .ok p.1 ⟨p.2, notes'⟩ := by
  unfold aside at h
  split at h
  · next hx =>
    cases h
    exact hx
  · cases h

end Watch

end Fluxion
