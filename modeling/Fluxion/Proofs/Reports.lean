import Fluxion.Derivative.Expansion
import Fluxion.Journal.Sinks
import Fluxion.Proofs.Sequencing

/-!
# Reports have no influence

A run comes to the same, and tells the same in the same order, whoever takes notes of it. If the
notes of one sink can be translated into those of another, then so can the runs. From a full
transcript the notes of any sink can be had, and from any notes the lack of notes.
-/

namespace Fluxion

/-! ### Views of the state -/

section

variable {ε σ τ α β : Type} {view : σ → τ}

/-- What a change comes to, the state being seen through the view. -/
def seen (view : σ → τ) : EStateM.Result ε σ α → EStateM.Result ε τ α
  | .ok a s => .ok a (view s)
  | .error e s => .error e (view s)

/-- Seen through the view, `x` does what `y` does. -/
def Mirrors (view : σ → τ) (x : EStateM ε σ α) (y : EStateM ε τ α) : Prop :=
  ∀ s, y (view s) = seen view (x s)

namespace Mirrors

theorem pure (a : α) :
    Mirrors view (Pure.pure a : EStateM ε σ α) (Pure.pure a : EStateM ε τ α) :=
  fun _ => rfl

theorem throw (e : ε) : Mirrors view (MonadExcept.throw e : EStateM ε σ α)
    (MonadExcept.throw e : EStateM ε τ α) :=
  fun _ => rfl

theorem bind {x : EStateM ε σ α} {y : EStateM ε τ α} {k : α → EStateM ε σ β}
    {l : α → EStateM ε τ β} (first : Mirrors view x y) (rest : ∀ a, Mirrors view (k a) (l a)) :
    Mirrors view (x >>= k) (y >>= l) := by
  intro s
  have same := first s
  cases hx : x s with
  | ok a s' =>
    rw [hx] at same
    rw [bind_ok hx, bind_ok same]
    exact rest a s'
  | error e s' =>
    rw [hx] at same
    rw [bind_error hx, bind_error same]
    rfl

theorem discard {x : EStateM ε σ α} {y : EStateM ε τ α} (h : Mirrors view x y) :
    Mirrors view (Functor.discard x : EStateM ε σ PUnit)
      (Functor.discard y : EStateM ε τ PUnit) := by
  intro s
  have same := h s
  cases hx : x s with
  | ok a s' =>
    rw [hx] at same
    rw [discard_ok hx, discard_ok same]
    rfl
  | error e s' =>
    rw [hx] at same
    rw [discard_error hx, discard_error same]
    rfl

theorem foldlM {γ : Type} {step : α → γ → EStateM ε σ α} {step' : α → γ → EStateM ε τ α}
    (steps : ∀ a c, Mirrors view (step a c) (step' a c)) (cs : List γ) (a : α) :
    Mirrors view (cs.foldlM step a) (cs.foldlM step' a) := by
  induction cs generalizing a with
  | nil => exact pure a
  | cons c cs ih =>
    rw [List.foldlM_cons, List.foldlM_cons]
    exact bind (steps a c) ih

end Mirrors

end

/-! ### Translations of notes -/

section

variable {σ τ α : Type} {h : σ → τ} {sink : Sink σ} {sink' : Sink τ}

/-- It does not matter whether notes are translated before a report or after it. -/
def Sink.Translates (h : σ → τ) (sink : Sink σ) (sink' : Sink τ) : Prop :=
  ∀ f r notes, h (sink f r notes) = sink' f r (h notes)

def Watched.translated (h : σ → τ) (w : Watched σ) : Watched τ := ⟨w.forest, h w.notes⟩

namespace Mirrors

theorem act (x : Edit α) :
    Mirrors (Watched.translated h) (Watch.act x : Watch σ α) (Watch.act x : Watch τ α) := by
  rintro ⟨f, notes⟩
  cases hx : x f with
  | ok a g =>
    rw [Watch.act_ok hx, Watched.translated, Watch.act_ok hx]
    rfl
  | error e g =>
    rw [Watch.act_error hx, Watched.translated, Watch.act_error hx]
    rfl

theorem report (translates : Sink.Translates h sink sink') (r : Report) :
    Mirrors (Watched.translated h) (Watch.report sink r) (Watch.report sink' r) := by
  rintro ⟨f, notes⟩
  rw [Watch.report_eq, Watched.translated, Watch.report_eq, seen, Watched.translated, translates]

theorem aside {x : Watch σ α} {y : Watch τ α} (same : Mirrors (Watched.translated h) x y)
    (f : Forest) : Mirrors h (x.aside f) (y.aside f) := by
  intro notes
  have after := same ⟨f, notes⟩
  cases hx : x ⟨f, notes⟩ with
  | ok a w =>
    rw [hx] at after
    rw [Watch.aside_ok hx, Watch.aside_ok after]
    rfl
  | error e w =>
    rw [hx] at after
    rw [Watch.aside_error hx, Watch.aside_error after]
    rfl

end Mirrors

namespace Watch

variable (translates : Sink.Translates h sink sink')

include translates

/-! ### Differentiation -/

theorem deriveNode_mirrors (key : Key) (depends : Array Bool) (slopes : Array (Option Nat))
    (i : Nat) : Mirrors (Watched.translated h) (deriveNode sink key depends slopes i)
      (deriveNode sink' key depends slopes i) := by
  refine .bind (.act _) fun c? => ?_
  rcases c? with _ | x | k | ⟨op, a⟩ | ⟨op, a, b⟩
  · exact .throw _
  · exact .act _
  · exact .act _
  · exact .bind (.act _) fun _ => .bind (.act _) fun d =>
      .bind (.report translates _) fun _ => .pure d
  · exact .bind (.act _) fun d => .bind (.report translates _) fun _ => .pure d

theorem derive_mirrors (i : Nat) (key : Key) :
    Mirrors (Watched.translated h) (derive sink i key) (derive sink' i key) := by
  refine .bind (.act _) fun order => .bind (.act _) fun depends => ?_
  refine .bind (.act _) fun demanded => .bind (.act _) fun size => ?_
  refine .bind (.foldlM (fun slopes j => ?_) order _) fun slopes => .act _
  unfold deriveDemanded
  by_cases demand : Forest.flag demanded j
  · rw [if_pos demand, if_pos demand]
    exact .bind (deriveNode_mirrors translates key depends slopes j) fun d => .pure _
  · rw [if_neg demand, if_neg demand]
    exact .pure slopes

theorem differentiate_mirrors (i : Nat) (key : Key) :
    Mirrors (Watched.translated h) (differentiate sink i key) (differentiate sink' i key) :=
  .bind (.act _) fun _ => .bind (derive_mirrors translates i key) fun d =>
    .bind (.act _) fun _ => .bind (.report translates _) fun _ => .pure d

theorem differentiateRoot_mirrors (symbol : Char) :
    Mirrors (Watched.translated h) (differentiateRoot sink symbol)
      (differentiateRoot sink' symbol) :=
  .bind (.act _) fun key => .bind (.act _) fun root =>
    .discard (differentiate_mirrors translates root key)

/-! ### Simplification -/

variable [Elementary]

theorem reduceNode_mirrors (count i : Nat) :
    Mirrors (Watched.translated h) (reduceNode sink count i) (reduceNode sink' count i) := by
  refine .bind (.act _) fun reduct => ?_
  rcases reduct with cause | _ | j | v
  · exact .bind (.report translates _) fun _ => .pure count
  · exact .pure count
  · exact .bind (.act _) fun _ => .pure (count + 1)
  · exact .bind (.act _) fun _ => .pure (count + 1)

theorem simplifyPasses_mirrors (passes total : Nat) :
    Mirrors (Watched.translated h) (simplifyPasses sink passes total)
      (simplifyPasses sink' passes total) := by
  induction passes generalizing total with
  | zero => exact .throw _
  | succ passes ih =>
    have pass : Mirrors (Watched.translated h) (simplifyPass sink) (simplifyPass sink') :=
      .bind (.act _) fun root => .bind (.act _) fun order =>
        .foldlM (reduceNode_mirrors translates) order 0
    refine .bind pass fun count => ?_
    by_cases settled : count = 0
    · rw [if_pos settled, if_pos settled]
      exact .pure total
    · rw [if_neg settled, if_neg settled]
      exact ih _

theorem simplify_mirrors :
    Mirrors (Watched.translated h) (simplify sink) (simplify sink') := by
  refine .bind (.act _) fun limit => .bind (simplifyPasses_mirrors translates limit 0) ?_
  intro total
  by_cases changed : total > 0
  · rw [if_pos changed, if_pos changed]
    exact .bind (.act _) fun root => .bind (.report translates _) fun _ => .pure total
  · rw [if_neg changed, if_neg changed]
    exact .pure total

/-! ### Sequences of derivatives -/

theorem advance_mirrors (symbol : Char) :
    Mirrors (Watched.translated h) (advance sink symbol) (advance sink' symbol) :=
  .bind (differentiateRoot_mirrors translates symbol) fun _ =>
    .bind (.discard (simplify_mirrors translates)) fun _ => .act _

theorem advanceTimes_mirrors (symbol : Char) (n : Nat) :
    Mirrors (Watched.translated h) (advanceTimes sink symbol n) (advanceTimes sink' symbol n) := by
  induction n with
  | zero => exact .pure _
  | succ n ih =>
    exact .bind (advance_mirrors translates symbol) fun _ => .bind (.act _) fun root =>
      .bind (.report translates _) fun _ => ih

theorem differentiateTimes_mirrors (symbol : Char) (n : Nat) :
    Mirrors (Watched.translated h) (differentiateTimes sink symbol n)
      (differentiateTimes sink' symbol n) :=
  .bind (.discard (.act _)) fun _ => .bind (.act _) fun _ =>
    .bind (.report translates _) fun _ => .bind (.discard (simplify_mirrors translates)) fun _ =>
      advanceTimes_mirrors translates symbol n

theorem collect_mirrors (symbol : Char) (n : Nat) :
    Mirrors (Watched.translated h) (collect sink symbol n) (collect sink' symbol n) := by
  induction n with
  | zero => exact .pure _
  | succ n ih =>
    exact .bind (advance_mirrors translates symbol) fun _ => .bind (.act _) fun g =>
      .bind ih fun gs => .pure (g :: gs)

theorem derivatives_mirrors (f : Forest) (symbol : Char) (n : Nat) :
    Mirrors h (f.derivatives sink symbol n) (f.derivatives sink' symbol n) := by
  refine .bind (.aside ?_ f) fun made => .pure made.1
  exact .bind (.discard (.act _)) fun _ => .bind (.discard (simplify_mirrors translates)) fun _ =>
    collect_mirrors translates symbol n

/-! ### Expansion -/

variable {symbol : Char} {center : Float}

theorem valueAt_mirrors : Mirrors (Watched.translated h) (valueAt sink symbol center)
    (valueAt sink' symbol center) := by
  refine .bind (.act _) fun _ => .bind (.act _) fun root => .bind (.act _) fun v? => ?_
  cases v? with
  | ok v => exact .pure v
  | error e => exact .bind (.report translates _) fun _ => .throw e

theorem furtherValues_mirrors (n : Nat) :
    Mirrors (Watched.translated h) (furtherValues sink symbol center n)
      (furtherValues sink' symbol center n) := by
  induction n with
  | zero => exact .pure _
  | succ n ih =>
    exact .bind (advance_mirrors translates symbol) fun _ =>
      .bind (valueAt_mirrors translates) fun v => .bind ih fun vs => .pure (v :: vs)

theorem values_mirrors (n : Nat) : Mirrors (Watched.translated h) (values sink symbol center n)
    (values sink' symbol center n) := by
  cases n with
  | zero => exact .pure _
  | succ n =>
    exact .bind (valueAt_mirrors translates) fun v =>
      .bind (furtherValues_mirrors translates n) fun vs => .pure (v :: vs)

theorem expand_mirrors (f : Forest) (symbol : Char) (center : Float) (n : Nat) :
    Mirrors h (f.expand sink symbol center n) (f.expand sink' symbol center n) := by
  refine .bind (.aside ?_ f) fun sampled => .bind (.aside ?_ .empty) fun made => .pure made.2
  · exact .bind (.discard (.act _)) fun _ =>
      .bind (.discard (simplify_mirrors translates)) fun _ => values_mirrors translates n
  · exact .bind (.discard (.act _)) fun _ => .bind (.act _) fun _ =>
      .bind (.discard (simplify_mirrors translates)) fun _ => .bind (.act _) fun _ =>
        .report translates _

end Watch

end

/-! ### What is heard -/

section

variable {σ : Type} {sink : Sink σ}

namespace Sink

/-- The notes of what is told, one report after the other. -/
def hear (sink : Sink σ) (notes : σ) (told : List (Forest × Report)) : σ :=
  told.foldl (fun notes e => sink e.1 e.2 notes) notes

/-- All that is told. -/
def transcript : Sink (List (Forest × Report)) := fun f r told => told ++ [(f, r)]

theorem translates_hear (notes : σ) : Translates (sink.hear notes) transcript sink := by
  intro f r told
  rw [transcript, hear, List.foldl_append]
  rfl

theorem hear_transcript (before told : List (Forest × Report)) :
    transcript.hear before told = before ++ told := by
  induction told generalizing before with
  | nil => exact (List.append_nil before).symm
  | cons e told ih => exact (ih _).trans (List.append_assoc before [e] told)

/-- After the first notes, the last ones are taken of reports that have the property at their
moment. -/
def Heard (sink : Sink σ) (holds : Forest → Report → Prop) (first last : σ) : Prop :=
  ∃ told, last = sink.hear first told ∧ ∀ e ∈ told, holds e.1 e.2

namespace Heard

variable {holds holds' : Forest → Report → Prop} {first notes last : σ}

theorem nothing : sink.Heard holds first first := ⟨[], rfl, by simp⟩

theorem report {f : Forest} {r : Report} (h : holds f r) :
    sink.Heard holds notes (sink f r notes) :=
  ⟨[(f, r)], rfl, by simpa using h⟩

theorem trans (before : sink.Heard holds first notes) (after : sink.Heard holds notes last) :
    sink.Heard holds first last := by
  obtain ⟨told, rfl, all⟩ := before
  obtain ⟨told', rfl, all'⟩ := after
  refine ⟨told ++ told', (List.foldl_append ..).symm, ?_⟩
  rw [List.forall_mem_append]
  exact ⟨all, all'⟩

theorem mono (h : sink.Heard holds first last) (weaker : ∀ f r, holds f r → holds' f r) :
    sink.Heard holds' first last := by
  obtain ⟨told, rfl, all⟩ := h
  exact ⟨told, rfl, fun e he => weaker e.1 e.2 (all e he)⟩

theorem forall_mem {told : List (Forest × Report)} (h : transcript.Heard holds [] told) :
    ∀ e ∈ told, holds e.1 e.2 := by
  obtain ⟨told', rfl, all⟩ := h
  rw [hear_transcript]
  exact all

end Heard

end Sink

end

/-! ### Agreement -/

namespace Watch

variable {σ τ α : Type}

/-- What came of a change, without the notes. -/
def outcome : EStateM.Result Fault (Watched σ) α → Except Fault α × Forest
  | .ok a w => (.ok a, w.forest)
  | .error e w => (.error e, w.forest)

/-- On every forest both changes come to the same. -/
def Concurs (x : Watch σ α) (y : Watch τ α) : Prop :=
  ∀ f notes notes', outcome (x ⟨f, notes⟩) = outcome (y ⟨f, notes'⟩)

theorem outcome_of_mirrors {h : σ → τ} {x : Watch σ α} {y : Watch τ α}
    (same : Mirrors (Watched.translated h) x y) (f : Forest) (notes : σ) :
    outcome (y ⟨f, h notes⟩) = outcome (x ⟨f, notes⟩) := by
  have after : y ⟨f, h notes⟩ = seen (Watched.translated h) (x ⟨f, notes⟩) := same ⟨f, notes⟩
  rw [after]
  cases x ⟨f, notes⟩ <;> rfl

/-- With another sink, the same forest. -/
theorem Concurs.ok {x : Watch σ α} {y : Watch τ α} (h : Concurs x y) {f g : Forest} {a : α}
    {notes notes' : σ} (done : x ⟨f, notes⟩ = .ok a ⟨g, notes'⟩) (notes₁ : τ) :
    ∃ notes₂, y ⟨f, notes₁⟩ = .ok a ⟨g, notes₂⟩ := by
  have same := h f notes notes₁
  rw [done] at same
  cases hy : y ⟨f, notes₁⟩ with
  | ok b w =>
    rw [hy] at same
    cases w
    cases same
    exact ⟨_, rfl⟩
  | error e w =>
    rw [hy] at same
    cases same

theorem simplify_concurs [Elementary] (sink : Sink σ) (sink' : Sink τ) :
    Concurs (simplify sink) (simplify sink') := by
  intro f notes notes'
  have quiet {σ : Type} (sink : Sink σ) (notes : σ) :
      outcome (simplify Sink.silent ⟨f, ()⟩) = outcome (simplify sink ⟨f, notes⟩) :=
    outcome_of_mirrors (simplify_mirrors (h := fun _ => ()) fun _ _ _ => rfl) f notes
  exact (quiet sink notes).symm.trans (quiet sink' notes')

end Watch

end Fluxion
