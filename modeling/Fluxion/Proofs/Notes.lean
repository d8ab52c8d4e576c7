import Fluxion.Derivative.Sequence
import Fluxion.Proofs.Invariants

/-!
# What is reported

The notes are taken of one report after another. Simplification reports the foldings that it
skips and its own end, and differentiation its steps; nothing else is reported on the way to a
derivative.
-/

namespace Fluxion

variable {σ α : Type} {sink : Sink σ} {kind : Report → Prop} {first : σ}

/-- The notes that are taken, after the first ones, of reports of one kind. -/
inductive Sink.Noted (sink : Sink σ) (kind : Report → Prop) (first : σ) : σ → Prop where
  | nothing : Noted sink kind first first
  | report {notes : σ} (before : Noted sink kind first notes) (f : Forest) (r : Report)
      (h : kind r) : Noted sink kind first (sink f r notes)

theorem Sink.Noted.trans {notes notes' : σ} (before : sink.Noted kind first notes)
    (after : sink.Noted kind notes notes') : sink.Noted kind first notes' := by
  induction after with
  | nothing => exact before
  | report _ f r h ih => exact .report ih f r h

namespace Watch

/-- Whatever the change comes to, it makes reports of the kind only. -/
abbrev Tells (sink : Sink σ) (kind : Report → Prop) (first : σ) (x : Watch σ α) : Prop :=
  Ensures (fun w => sink.Noted kind first w.notes) (fun _ => True) (fun _ => True) x

theorem tells_act (x : Edit α) : Tells sink kind first (act x) := .notes x

theorem tells_report {r : Report} (h : kind r) : Tells sink kind first (report sink r) :=
  fun w before => ⟨.report before w.forest r h, trivial⟩

theorem Tells.noted {x : Watch σ α} {f g : Forest} {notes notes' : σ} {a : α}
    (h : Tells sink kind notes x) (done : x ⟨f, notes⟩ = .ok a ⟨g, notes'⟩) :
    sink.Noted kind notes notes' := by
  have after := h ⟨f, notes⟩ .nothing
  rw [done] at after
  exact after.1

/-! ### Differentiation -/

section

variable (stepDerived : ∀ d i, kind (.stepDerived d i))

include stepDerived

theorem tells_deriveNode (key : Key) (depends : Array Bool) (slopes : Array (Option Nat))
    (i : Nat) : Tells sink kind first (deriveNode sink key depends slopes i) := by
  refine .andThen (tells_act _) fun c? => ?_
  rcases c? with _ | x | k | ⟨op, a⟩ | ⟨op, a, b⟩
  · exact .throw trivial
  · exact tells_act _
  · exact tells_act _
  · exact .andThen (tells_act _) fun _ => .andThen (tells_act _) fun d =>
      .andThen (tells_report (stepDerived d i)) fun _ => .pure trivial
  · exact .andThen (tells_act _) fun d =>
      .andThen (tells_report (stepDerived d i)) fun _ => .pure trivial

theorem tells_derive (i : Nat) (key : Key) : Tells sink kind first (derive sink i key) := by
  refine .andThen (tells_act _) fun order => .andThen (tells_act _) fun depends => ?_
  refine .andThen (tells_act _) fun demanded => .andThen (tells_act _) fun size => ?_
  refine .andThen (.foldlM (fun slopes _ j _ => ?_) trivial) fun slopes => tells_act _
  unfold deriveDemanded
  by_cases demand : Forest.flag demanded j
  · rw [if_pos demand]
    exact .andThen (tells_deriveNode stepDerived key depends slopes j) fun _ => .pure trivial
  · rw [if_neg demand]
    exact .pure trivial

variable (derived : ∀ d i, kind (.derived d i))

include derived

theorem tells_differentiate (i : Nat) (key : Key) :
    Tells sink kind first (differentiate sink i key) :=
  .andThen (tells_act _) fun _ => .andThen (tells_derive stepDerived i key) fun d =>
    .andThen (tells_act _) fun _ => .andThen (tells_report (derived d i)) fun _ => .pure trivial

theorem tells_differentiateRoot (symbol : Char) :
    Tells sink kind first (differentiateRoot sink symbol) :=
  .andThen (tells_act _) fun key => .andThen (tells_act _) fun root =>
    .discard (tells_differentiate stepDerived derived root key)

end

/-! ### Simplification -/

section

variable [Elementary] {inv : σ → Prop}
  (skipped : ∀ f i e notes, f.reduct? i = .error e → inv notes →
    inv (sink f (.foldingSkipped i (.numeric e)) notes))

include skipped

/-- A visit reports nothing but a folding that it skips. -/
theorem reduceNode_notes (count i : Nat) : Ensures (fun w : Watched σ => inv w.notes)
    (fun _ => True) (fun _ => True) (reduceNode sink count i) := by
  rintro ⟨f, notes⟩ h
  rw [reduceNode, bind_ok (look_eq _)]
  cases reduct : f.reduct? i with
  | error e => exact ⟨skipped f i e notes reduct h, trivial⟩
  | ok r? =>
    rcases r? with _ | j | v
    · exact ⟨h, trivial⟩
    · exact Ensures.andThen (.notes _) (fun _ => .pure trivial) _ h
    · exact Ensures.andThen (.notes _) (fun _ => .pure trivial) _ h

theorem simplifyPasses_notes (passes total : Nat) : Ensures (fun w : Watched σ => inv w.notes)
    (fun _ => True) (fun _ => True) (simplifyPasses sink passes total) := by
  induction passes generalizing total with
  | zero => exact .throw trivial
  | succ passes ih =>
    have pass : Ensures (fun w : Watched σ => inv w.notes) (fun _ => True) (fun _ => True)
        (simplifyPass sink) :=
      .andThen (.notes _) fun _ => .andThen (.notes _) fun _ =>
        .foldlM (fun count _ i _ => reduceNode_notes skipped count i) trivial
    refine .andThen pass fun count => ?_
    by_cases settled : count = 0
    · rw [if_pos settled]
      exact .pure trivial
    · rw [if_neg settled]
      exact ih _

end

section

variable [Elementary] (skipped : ∀ i e, kind (.foldingSkipped i e))

include skipped

variable (simplified : ∀ i, kind (.simplified i))

include simplified

theorem tells_simplify : Tells sink kind first (simplify sink) := by
  refine .andThen (tells_act _) fun limit => ?_
  have passes : Tells sink kind first (simplifyPasses sink limit 0) :=
    simplifyPasses_notes (fun f i e _ _ before => .report before f _ (skipped i _)) limit 0
  refine .andThen passes fun total => ?_
  by_cases changed : total > 0
  · rw [if_pos changed]
    exact .andThen (tells_act _) fun root =>
      .andThen (tells_report (simplified root)) fun _ => .pure trivial
  · rw [if_neg changed]
    exact .pure trivial

theorem tells_advance (stepDerived : ∀ d i, kind (.stepDerived d i))
    (derived : ∀ d i, kind (.derived d i)) (symbol : Char) :
    Tells sink kind first (advance sink symbol) :=
  .andThen (tells_differentiateRoot stepDerived derived symbol) fun _ =>
    .andThen (.discard (tells_simplify skipped simplified)) fun _ => tells_act _

end

end Watch

end Fluxion
