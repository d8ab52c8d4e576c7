import Fluxion.Proofs.Derivative.Announcement
import Fluxion.Proofs.Derivative.Table
import Fluxion.Proofs.Simplification.Normal
import Fluxion.Proofs.Typesetting.Readable

/-!
# What is reported is true

A report names nodes that can be read in the forest of its moment, although one of them may have
lost its place to the other just before. If it shows a derivative, then that is the derivative of
the node before; if a folding was skipped, then the signal is the one that the folding raises.
Everyone who takes notes of a run is told the same.
-/

namespace Fluxion

open Forest

/-- The operands of the node are numbers, and its operator raises the signal on them. -/
inductive Forest.RaisesOnNumbers [Elementary] (f : Forest) (i : Nat) (cause : NumericFault) :
    Prop where
  | unary {op : Unary} {a : Nat} {x : Float} (node : f.cells[i]? = some (.unary op a))
    (operand : f.cells[a]? = some (.number x)) (raises : op.apply x = .error cause)
  | binary {op : Binary} {a b : Nat} {x y : Float} (node : f.cells[i]? = some (.binary op a b))
    (left : f.cells[a]? = some (.number x)) (right : f.cells[b]? = some (.number y))
    (raises : op.apply x y = .error cause)

/-- The node can be written out. -/
structure Forest.Renderable (f : Forest) (i : Nat) : Prop where
  acyclic : f.AcyclicFrom i
  markup : ∃ text, f.markup? i = some text

theorem Forest.renderable_of_fits {f : Forest} {t : Tree} (h : t.Fits f.cells) :
    f.Renderable t.top :=
  ⟨acyclicFrom_of_fits h, _, markup?_eq h⟩

/-- What the report says is so in the forest of its moment. Derivatives are those with respect to
the variable of the key. -/
structure Report.Truthful [Elementary] (key : Key) (f : Forest) (r : Report) : Prop where
  node : f.Renderable r.node
  before : ∀ i, r.before? = some i → f.Renderable i
  derivative : r.message = "Differentiating a step" ∨ r.message = "Taking the derivative we get" →
    ∃ i e, r.before? = some i ∧ f.term? i = some e ∧ f.term? r.node = some (e.byTable key)
  skipped : r.message = "Constant folding skipped" →
    ∃ cause, r.fault? = some (.numeric cause) ∧ f.RaisesOnNumbers r.node cause

section

variable [Elementary] {σ α : Type} {sink : Sink σ} {first notes : σ} {key : Key} {f g : Forest}
  {m : Mark} {k : Context} {l s t u : Tree} {ts : List Tree} {r : Report}

namespace Report.Truthful

/-- A derivative and the node that it was made for, which may be in its place no more. -/
theorem of_derivative (old : s.Fits f.cells) (new : u.Fits f.cells)
    (term : u.term = s.term.derivative key) (before : r.before? = some s.top)
    (node : r.node = u.top) : r.Truthful key f where
  node := node ▸ renderable_of_fits new
  before i hi := by
    rw [before, Option.some.injEq] at hi
    exact hi ▸ renderable_of_fits old
  derivative _ := by
    refine ⟨s.top, s.term, before, term?_eq old, ?_⟩
    rw [node, term?_eq new, term, s.term.derivative_eq_byTable]
  skipped h := by cases r <;> simp [message, Report.before?] at h before

/-- A report of nothing but a whole expression. -/
theorem of_expression (fits : l.Fits f.cells) (node : r.node = l.top)
    (plain : r.before? = none ∧ r.message ≠ "Constant folding skipped") : r.Truthful key f where
  node := node ▸ renderable_of_fits fits
  before i hi := by simp [plain.1] at hi
  derivative h := by cases r <;> simp [message, Report.before?] at h plain
  skipped h := absurd h plain.2

end Report.Truthful

/-! ### Simplification -/

/-- Folding is the only thing that raises a signal. -/
theorem Forest.raisesOnNumbers_of_reduct? {i : Nat} {cause : NumericFault}
    (h : f.reduct? i = .error cause) : f.RaisesOnNumbers i cause := by
  unfold reduct? at h
  split at h
  · next op a node =>
    split at h
    · next x hx =>
      exact .unary node (cell_of_number? hx) (Except.map_eq_error_iff.mp h)
    · cases h
  · next op a b node =>
    split at h
    · next x y hx hy =>
      exact .binary node (cell_of_number? hx) (cell_of_number? hy) (Except.map_eq_error_iff.mp h)
    · cases h
  · cases h

theorem Forest.RaisesOnNumbers.renderable {i : Nat} {cause : NumericFault}
    (h : f.RaisesOnNumbers i cause) : f.Renderable i := by
  cases h with
  | @unary op a x node operand _ =>
    exact renderable_of_fits (t := .unary i op (.number a x)) ⟨node, operand⟩
  | @binary op a b x y node left right _ =>
    exact renderable_of_fits (t := .binary i op (.number a x) (.number b y)) ⟨node, left, right⟩

theorem Report.truthful_of_reduct? {i : Nat} {cause : NumericFault}
    (h : f.reduct? i = .error cause) :
    (foldingSkipped i (.numeric cause)).Truthful key f where
  node := (raisesOnNumbers_of_reduct? h).renderable
  before j hj := by cases hj
  derivative h := by simp [message] at h
  skipped _ := ⟨cause, rfl, raisesOnNumbers_of_reduct? h⟩

/-! ### Live trees -/

/-- There is a live expression, it is a tree, and what was told so far is true. -/
structure Watched.Honest (sink : Sink σ) (key : Key) (first : σ) (w : Watched σ) : Prop where
  shaped : w.forest.TreeShaped
  root : ∃ i, w.forest.root = some i
  heard : sink.Heard (Report.Truthful key) first w.notes

theorem Watched.Honest.of_holds (held : g.Holds m (some l) ts)
    (heard : sink.Heard (Report.Truthful key) first notes) :
    Watched.Honest sink key first ⟨g, notes⟩ :=
  ⟨held.treeShaped, ⟨l.top, held.root⟩, heard⟩

namespace Watch

/-- A change of a live tree that leaves a live tree and tells what is true. -/
abbrev Honest (sink : Sink σ) (key : Key) (first : σ) (x : Watch σ α) : Prop :=
  Ensures (Watched.Honest sink key first) (fun _ => True) (fun _ => True) x

/-- A report of the live expression. -/
theorem honest_reportRoot {mk : Nat → Report} {y : PUnit → Watch σ α}
    (node : ∀ i, (mk i).node = i)
    (plain : ∀ i, (mk i).before? = none ∧ (mk i).message ≠ "Constant folding skipped")
    (rest : ∀ u, Honest sink key first (y u)) :
    Honest sink key first (act .rootIndex >>= fun i => report sink (mk i) >>= y) := by
  rintro ⟨f, notes⟩ honest
  obtain ⟨l, held⟩ := honest.shaped.exists_holds_some honest.root
  rw [bind_ok (act_ok held.rootIndex), bind_ok (report_eq _ _)]
  refine rest _ _ ⟨honest.shaped, honest.root, honest.heard.trans (.report ?_)⟩
  exact .of_expression held.fits_live (node l.top) (plain l.top)

theorem honest_definedKey (symbol : Char) :
    Honest sink key first (act (.definedKey symbol)) := by
  rintro ⟨f, notes⟩ honest
  obtain ⟨l, held⟩ := honest.shaped.exists_holds_some honest.root
  by_cases defined : Mark.Defines ⟨f.registry, f.retired.size⟩ symbol
  · rw [act_ok (Edit.definedKey_ok held defined)]
    exact ⟨honest, trivial⟩
  · rw [act_error (Edit.definedKey_error held defined)]
    exact ⟨honest, trivial⟩

theorem honest_compact : Honest sink key first (act .compact) := by
  rintro ⟨f, notes⟩ honest
  obtain ⟨l, held⟩ := honest.shaped.exists_holds_some honest.root
  obtain ⟨l', -, held'⟩ := held.compact_packed.holds 0
  exact ⟨.of_holds held' honest.heard, trivial⟩

theorem honest_simplify : Honest sink key first (simplify sink) := by
  rintro ⟨f, notes⟩ honest
  obtain ⟨l, held⟩ := honest.shaped.exists_holds_some honest.root
  obtain ⟨u, g, notes', total, passed, -, held'⟩ :=
    simplifyPasses_spec sink f.passLimit 0 notes held.size_lt_passLimit held
  have told := simplifyPasses_notes
    (fun f i e notes reduct heard => heard.trans (.report (Report.truthful_of_reduct? reduct)))
    f.passLimit 0 ⟨f, notes⟩ honest.heard
  rw [passed] at told
  have rest : Honest sink key first (if total > 0 then
      act .rootIndex >>= fun i => report sink (.simplified i) >>= fun _ => pure total
      else pure total) := by
    by_cases changed : total > 0
    · rw [if_pos changed]
      exact honest_reportRoot (fun _ => rfl) (fun _ => by simp [Report.before?, Report.message])
        fun _ => .pure trivial
    · rw [if_neg changed]
      exact .pure trivial
  rw [simplify, bind_ok (look_eq _), bind_ok passed]
  exact rest _ (.of_holds held' told.1)

end Watch

/-! ### Differentiation -/

namespace Watch

/-- When its derivative has taken the place of a part, the part is still to be read. -/
theorem differentiate_heard (sink : Sink σ) (key : Key) (notes : σ)
    (h : f.Holds m (some (k.plug t)) ts) :
    ∃ u g notes', differentiate sink t.top key ⟨f, notes⟩ = .ok u.top ⟨g, notes'⟩ ∧
      g.Holds m (some (k.plug u)) ts ∧ sink.Heard (Report.Truthful key) notes notes' := by
  have fits := (Context.fits_plug.mp h.fits_live).1
  obtain ⟨u, f₁, notes₁, h₁, term, built, -, steps⟩ := derive_part sink key notes h
  obtain ⟨hg, held⟩ := built.replace
  have old := built.fits_part_moved u.top
  have new := (Context.fits_plug.mp held.fits_live).1
  refine ⟨u, _, _, differentiate_of_derive fits.top_lt h₁ hg, held, ?_⟩
  have truthful : sink.Heard (Report.Truthful key) notes notes₁ := by
    refine steps.mono ?_
    rintro g r ⟨s, u, rfl, old, new, term⟩
    exact .of_derivative old new term rfl rfl
  exact truthful.trans (.report (.of_derivative old new term rfl rfl))

theorem honest_differentiateRoot (symbol : Char) :
    Honest sink (.ofSymbol symbol) first (differentiateRoot sink symbol) := by
  rintro ⟨f, notes⟩ honest
  obtain ⟨l, held⟩ := honest.shaped.exists_holds_some honest.root
  by_cases defined : Mark.Defines ⟨f.registry, f.retired.size⟩ symbol
  · obtain ⟨u, g, notes', made, held', heard⟩ :=
      differentiate_heard (k := []) sink (.ofSymbol symbol) notes held
    rw [differentiateRoot, bind_ok (act_ok (Edit.definedKey_ok held defined)),
      bind_ok (act_ok held.rootIndex), discard_ok made]
    exact ⟨.of_holds held' (honest.heard.trans heard), trivial⟩
  · rw [differentiateRoot_error sink notes defined held]
    exact ⟨honest, trivial⟩

theorem honest_advance (symbol : Char) :
    Honest sink (.ofSymbol symbol) first (advance sink symbol) :=
  .andThen (honest_differentiateRoot symbol) fun _ => .andThen (.discard honest_simplify) fun _ =>
    honest_compact

theorem honest_advanceTimes (symbol : Char) (n : Nat) :
    Honest sink (.ofSymbol symbol) first (advanceTimes sink symbol n) := by
  induction n with
  | zero => exact .pure trivial
  | succ n ih =>
    refine .andThen (honest_advance symbol) fun _ => honest_reportRoot (fun _ => rfl) ?_ fun _ => ih
    simp [Report.before?, Report.message]

theorem honest_differentiateTimes (symbol : Char) (n : Nat) :
    Honest sink (.ofSymbol symbol) first (differentiateTimes sink symbol n) := by
  refine .andThen (.discard (honest_definedKey symbol)) fun _ =>
    honest_reportRoot (fun _ => rfl) ?_ fun _ =>
      .andThen (.discard honest_simplify) fun _ => honest_advanceTimes symbol n
  simp [Report.before?, Report.message]

theorem honest_collect (symbol : Char) (n : Nat) :
    Honest sink (.ofSymbol symbol) first (collect sink symbol n) := by
  induction n with
  | zero => exact .pure trivial
  | succ n ih =>
    have now : Honest sink (.ofSymbol symbol) first (look id) := fun w honest => ⟨honest, trivial⟩
    exact .andThen (honest_advance symbol) fun _ => .andThen now fun _ =>
      .andThen ih fun _ => .pure trivial

/-! ### Expansion -/

theorem honest_valueAt (symbol : Char) (center : Float) :
    Honest sink key first (valueAt sink symbol center) := by
  rintro ⟨f, notes⟩ honest
  obtain ⟨l, held⟩ := honest.shaped.exists_holds_some honest.root
  cases assigned : f.registry.assign? symbol center with
  | none =>
    have failed : Edit.assign symbol center f = .error (.undefined symbol) f := by
      simp only [Edit.assign, assigned]
    rw [valueAt, bind_error (act_error failed)]
    exact ⟨honest, trivial⟩
  | some r =>
    have held' := held.reregister r
    rw [valueAt_eq sink notes held assigned]
    cases l.term.value r with
    | ok v => exact ⟨.of_holds held' honest.heard, trivial⟩
    | error e =>
      refine ⟨.of_holds held' (honest.heard.trans (.report ?_)), trivial⟩
      exact .of_expression held'.fits_live rfl (by simp [Report.before?, Report.message])

theorem honest_furtherValues (symbol : Char) (center : Float) (n : Nat) :
    Honest sink (.ofSymbol symbol) first (furtherValues sink symbol center n) := by
  induction n with
  | zero => exact .pure trivial
  | succ n ih =>
    exact .andThen (honest_advance symbol) fun _ => .andThen (honest_valueAt symbol center) fun _ =>
      .andThen ih fun _ => .pure trivial

theorem honest_values (symbol : Char) (center : Float) (n : Nat) :
    Honest sink (.ofSymbol symbol) first (values sink symbol center n) := by
  cases n with
  | zero => exact .pure trivial
  | succ n =>
    exact .andThen (honest_valueAt symbol center) fun _ =>
      .andThen (honest_furtherValues symbol center n) fun _ => .pure trivial

/-- After compaction the root is the first node. -/
theorem honest_expanded :
    Honest sink key first (act .compact >>= fun _ => report sink (.expanded 0)) := by
  rintro ⟨f, notes⟩ honest
  obtain ⟨l, held⟩ := honest.shaped.exists_holds_some honest.root
  have packed := held.compact_packed
  obtain ⟨l', -, held'⟩ := packed.holds 0
  have top : l'.top = 0 := by
    rw [← Option.some.injEq, ← packed.root_eq, held'.root]
    rfl
  refine ⟨.of_holds held' (honest.heard.trans (.report ?_)), trivial⟩
  exact .of_expression held'.fits_live top.symm (by simp [Report.before?, Report.message])

/-- Work on a live tree aside. -/
theorem heard_aside {x : Watch σ α} (honest : Honest sink key first x) (shaped : f.TreeShaped)
    (root : ∃ i, f.root = some i) :
    Ensures (sink.Heard (Report.Truthful key) first) (fun _ => True) (fun _ => True)
      (x.aside f) := by
  intro notes heard
  have after := honest ⟨f, notes⟩ ⟨shaped, root, heard⟩
  cases hx : x ⟨f, notes⟩ with
  | ok a w =>
    rw [hx] at after
    rw [aside_ok hx]
    exact ⟨after.1.heard, trivial⟩
  | error e w =>
    rw [hx] at after
    rw [aside_error hx]
    exact ⟨after.1.heard, trivial⟩

/-- An expansion is put together in a forest that is empty at first. -/
theorem heard_assemble (symbol : Char) (center : Float) (vs : List Float) :
    Ensures (sink.Heard (Report.Truthful key) first) (fun _ => True) (fun _ => True)
      ((assemble sink symbol center vs).aside .empty) := by
  intro notes heard
  obtain ⟨u, f, planted, -, held⟩ := (empty_holds.reregister
    (empty.registry.register symbol)).plantRoot (Expansion.polynomial symbol center vs)
  have rest : Honest sink key first (do
      discard (simplify sink)
      act .compact
      report sink (.expanded 0)) := .andThen (.discard honest_simplify) fun _ => honest_expanded
  have same : (assemble sink symbol center vs).aside .empty notes =
      aside (do
        discard (simplify sink)
        act .compact
        report sink (.expanded 0)) f notes := by
    rw [aside, assemble, bind_ok (discard_ok (act_ok (Edit.register_eq _ _))),
      bind_ok (act_ok planted)]
    rfl
  rw [same]
  exact heard_aside rest held.treeShaped ⟨u.top, held.root⟩ notes heard

variable (shaped : f.TreeShaped) (root : ∃ i, f.root = some i)

include shaped root

theorem heard_derivatives (symbol : Char) (n : Nat) :
    Ensures (sink.Heard (Report.Truthful (.ofSymbol symbol)) first) (fun _ => True)
      (fun _ => True) (f.derivatives sink symbol n) := by
  refine .andThen (heard_aside ?_ shaped root) fun _ => .pure trivial
  exact .andThen (.discard (honest_definedKey symbol)) fun _ =>
    .andThen (.discard honest_simplify) fun _ => honest_collect symbol n

theorem heard_expand (symbol : Char) (center : Float) (n : Nat) :
    Ensures (sink.Heard (Report.Truthful (.ofSymbol symbol)) first) (fun _ => True)
      (fun _ => True) (f.expand sink symbol center n) := by
  refine .andThen (heard_aside ?_ shaped root) fun sampled =>
    .andThen (heard_assemble symbol center sampled.1) fun _ => .pure trivial
  exact .andThen (.discard (honest_definedKey symbol)) fun _ =>
    .andThen (.discard honest_simplify) fun _ => honest_values symbol center n

end Watch

/-! ### What everyone is told -/

namespace Watch

/-- The change of `f`, with what it makes of `f` even if it fails. -/
def attempt (x : Watch σ α) (f : Forest) : EStateM Fault σ (Except Fault α × Forest) :=
  fun notes =>
    match x ⟨f, notes⟩ with
    | .ok a w => .ok (.ok a, w.forest) w.notes
    | .error e w => .ok (.error e, w.forest) w.notes

omit [Elementary] in
theorem attempt_mirrors {τ : Type} {h : σ → τ} {x : Watch σ α} {y : Watch τ α}
    (same : Mirrors (Watched.translated h) x y) (f : Forest) :
    Mirrors h (x.attempt f) (y.attempt f) := by
  intro notes
  have after : y ⟨f, h notes⟩ = seen (Watched.translated h) (x ⟨f, notes⟩) := same ⟨f, notes⟩
  rw [attempt, attempt, after]
  cases x ⟨f, notes⟩ <;> rfl

theorem heard_attempt {x : Watch σ α} (honest : Honest sink key first x) (shaped : f.TreeShaped)
    (root : ∃ i, f.root = some i) :
    Ensures (sink.Heard (Report.Truthful key) first) (fun _ => True) (fun _ => True)
      (x.attempt f) := by
  intro notes heard
  have after := honest ⟨f, notes⟩ ⟨shaped, root, heard⟩
  rw [attempt]
  cases hx : x ⟨f, notes⟩ with
  | ok a w =>
    rw [hx] at after
    exact ⟨after.1.heard, trivial⟩
  | error e w =>
    rw [hx] at after
    exact ⟨after.1.heard, trivial⟩

end Watch

/-- What a run comes to, and the notes that it leaves. -/
def ended {β : Type} : EStateM.Result Fault σ β → Except Fault β × σ
  | .ok b notes => (.ok b, notes)
  | .error e notes => (.error e, notes)

/-- The run comes to the same whoever takes notes of it, and all are told the same true things. -/
def Narrates {β : Type} (key : Key) (run : ∀ {σ : Type}, Sink σ → EStateM Fault σ β) : Prop :=
  ∃ (result : Except Fault β) (told : List (Forest × Report)),
    (∀ e ∈ told, e.2.Truthful key e.1) ∧
    ∀ (σ : Type) (sink : Sink σ) (notes : σ),
      ended (run sink notes) = (result, sink.hear notes told)

/-- A run that can be translated tells everyone what is in its transcript. -/
theorem narrates_of_mirrors {β : Type} {run : ∀ {σ : Type}, Sink σ → EStateM Fault σ β}
    (mirrors : ∀ {σ τ : Type} {h : σ → τ} {sink : Sink σ} {sink' : Sink τ},
      Sink.Translates h sink sink' → Mirrors h (run sink) (run sink'))
    (heard : Ensures (Sink.transcript.Heard (Report.Truthful key) []) (fun _ => True)
      (fun _ => True) (run Sink.transcript)) : Narrates key run := by
  have same {σ : Type} (sink : Sink σ) (notes : σ) :
      run sink notes = seen (sink.hear notes) (run Sink.transcript []) :=
    mirrors (Sink.translates_hear notes) []
  have truthful := heard [] .nothing
  cases done : run Sink.transcript [] with
  | ok b told =>
    rw [done] at truthful
    refine ⟨.ok b, told, truthful.1.forall_mem, fun σ sink notes => ?_⟩
    have after := same sink notes
    rw [done] at after
    exact congrArg ended after
  | error e told =>
    rw [done] at truthful
    refine ⟨.error e, told, truthful.1.forall_mem, fun σ sink notes => ?_⟩
    have after := same sink notes
    rw [done] at after
    exact congrArg ended after

/-- Differentiation, simplification, sequences of derivatives and expansions tell only what is
true, and what they come to does not depend on who is told. -/
theorem reports_truthful (f : Forest) (shaped : f.TreeShaped) (root : ∃ i, f.root = some i) :
    (∀ i key, f.Live i → Narrates key fun sink => (Watch.differentiate sink i key).attempt f) ∧
    (∀ symbol n, Narrates (.ofSymbol symbol) fun sink =>
      (Watch.differentiateTimes sink symbol n).attempt f) ∧
    (∀ key, Narrates key fun sink => (Watch.simplify sink).attempt f) ∧
    (∀ symbol n, Narrates (.ofSymbol symbol) fun sink => f.derivatives sink symbol n) ∧
    ∀ symbol center n, Narrates (.ofSymbol symbol) fun sink => f.expand sink symbol center n := by
  refine ⟨?_, ?_, ?_, ?_, ?_⟩
  · intro i key live
    obtain ⟨l, held⟩ := shaped.exists_holds_some root
    obtain ⟨k, t, rfl, rfl⟩ := Tree.exists_plug (held.live_iff.mp live)
    refine narrates_of_mirrors
      (fun translates => Watch.attempt_mirrors (Watch.differentiate_mirrors translates _ key) f) ?_
    intro notes heard
    obtain ⟨u, g, notes', made, -, heard'⟩ :=
      Watch.differentiate_heard Sink.transcript key notes held
    rw [Watch.attempt, made]
    exact ⟨heard.trans heard', trivial⟩
  · intro symbol n
    exact narrates_of_mirrors
      (fun translates =>
        Watch.attempt_mirrors (Watch.differentiateTimes_mirrors translates symbol n) f)
      (Watch.heard_attempt (Watch.honest_differentiateTimes symbol n) shaped root)
  · intro key
    exact narrates_of_mirrors
      (fun translates => Watch.attempt_mirrors (Watch.simplify_mirrors translates) f)
      (Watch.heard_attempt Watch.honest_simplify shaped root)
  · intro symbol n
    exact narrates_of_mirrors (fun translates => Watch.derivatives_mirrors translates f symbol n)
      (Watch.heard_derivatives shaped root symbol n)
  · intro symbol center n
    exact narrates_of_mirrors
      (fun translates => Watch.expand_mirrors translates f symbol center n)
      (Watch.heard_expand shaped root symbol center n)

/-- The transcript of a run. -/
def transcriptOf {β : Type} (x : EStateM Fault (List (Forest × Report)) β) :
    List (Forest × Report) :=
  (ended (x [])).2

theorem Narrates.forall_transcript {β : Type} {run : ∀ {σ : Type}, Sink σ → EStateM Fault σ β}
    (h : Narrates key run) :
    ∀ e ∈ transcriptOf (run Sink.transcript), e.2.Truthful key e.1 := by
  obtain ⟨result, told, truthful, all⟩ := h
  have same : transcriptOf (run Sink.transcript) = told := by
    rw [transcriptOf, all, Sink.hear_transcript]
    rfl
  rw [same]
  exact truthful

end

/-- In `(x + 0) - 1 / 0` the pole can be differentiated. It cannot be folded in the two passes
before the derivative of the whole is taken, and neither can what it has become in the pass after
that. There is nothing to expand. -/
theorem reports_truthful_sumMinusPole :
    let := Elementary.coarse
    let pole := Fault.numeric ⟨.binary .div, 1, some 0, .divisionByZero⟩
    let once := transcriptOf
      ((Watch.differentiate Sink.transcript 5 (.ofSymbol 'x')).attempt sumMinusPole)
    let times := transcriptOf
      ((Watch.differentiateTimes Sink.transcript 'x' 1).attempt sumMinusPole)
    let expansion := transcriptOf (sumMinusPole.expand Sink.transcript 'x' 2 3)
    sumMinusPole.TreeShaped ∧ (∃ i, sumMinusPole.root = some i) ∧ sumMinusPole.Live 5 ∧
      (∀ e ∈ once ++ times ++ expansion, e.2.Truthful (.ofSymbol 'x') e.1) ∧
      once.map Prod.snd = [.stepDerived 9 5, .derived 9 5] ∧
      times.map Prod.snd = [.given 6, .foldingSkipped 5 pole, .foldingSkipped 5 pole,
        .simplified 6, .stepDerived 10 5, .stepDerived 11 6, .derived 11 6,
        .foldingSkipped 10 (.numeric ⟨.binary .div, 0, some 0, .domainError⟩), .derivative 0] ∧
      expansion.map Prod.snd = [.foldingSkipped 5 pole, .foldingSkipped 5 pole, .simplified 6,
        .evaluationFailed 6 pole] := by
  intro inst pole once times expansion
  have shaped := sumMinusPole_holds.treeShaped
  have live : sumMinusPole.Live 5 := sumMinusPole_holds.live_iff.mpr (by decide)
  obtain ⟨ofOnce, ofTimes, -, -, ofExpansion⟩ := reports_truthful sumMinusPole shaped ⟨6, rfl⟩
  refine ⟨shaped, ⟨6, rfl⟩, live, ?_, by decide +kernel, by decide +kernel, by decide +kernel⟩
  rw [List.forall_mem_append, List.forall_mem_append]
  exact ⟨⟨(ofOnce 5 (.ofSymbol 'x') live).forall_transcript,
    (ofTimes 'x' 1).forall_transcript⟩, (ofExpansion 'x' 2 3).forall_transcript⟩

end Fluxion
