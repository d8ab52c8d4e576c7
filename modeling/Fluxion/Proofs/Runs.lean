import Fluxion.Forest.Text
import Fluxion.Journal.Sinks
import Fluxion.Proofs.Derivative.Sequence
import Fluxion.Proofs.Forest.Shape

/-!
# Runs

A run starts from a forest that was read and applies operations in any order, of which any
may fail. Copies stay beside the live expression until they are put into it; a node of the
live expression makes way only for such a copy or for an operand of its own. Forests of
derivatives and of Taylor polynomials start runs as well.

Nothing is asked of the nodes that were replaced. Their slots may hold live nodes.
-/

namespace Fluxion

/-- A forest in use, and the copies in it that were not put into a slot yet. -/
structure Workspace where
  forest : Forest
  spare : List Nat

inductive Operation where
  | simplify
  | differentiate (i : Nat) (key : Key)
  | differentiateRoot (symbol : Char)
  | differentiateTimes (symbol : Char) (n : Nat)
  | compact
  | copy (i : Nat)
  | graft (other : Forest) (i : Nat)
  | replace (old new : Nat)
  | register (symbol : Char)
  | assign (symbol : Char) (value : Float)
  | clear

variable {σ : Type}

namespace Operation

def resultless {α : Type} (x : Watch σ α) : Watch σ (Option Nat) := do
  discard x
  return none

/-- What is done to the forest, and the copy that it makes, if any. -/
def change [Elementary] (sink : Sink σ) : Operation → Watch σ (Option Nat)
  | simplify => resultless (Watch.simplify sink)
  | differentiate i key => resultless (Watch.differentiate sink i key)
  | differentiateRoot symbol => resultless (Watch.differentiateRoot sink symbol)
  | differentiateTimes symbol n => resultless (Watch.differentiateTimes sink symbol n)
  | compact => resultless (Watch.act .compact)
  | copy i => some <$> Watch.act (.copy i)
  | graft other i => some <$> Watch.act (.graft other i)
  | replace old new => resultless (Watch.act (.replace old new))
  | register symbol => resultless (Watch.act (.register symbol))
  | assign symbol value => resultless (Watch.act (.assign symbol value))
  | clear => resultless (Watch.act .clear)

/-- The copies that can still be put into a slot after a success. -/
def keeps : Operation → List Nat → List Nat
  | compact, _ => []
  | differentiateTimes _ n, spare => if n = 0 then spare else []
  | replace _ new, spare => spare.erase new
  | _, spare => spare

/-- The operations that change the live expression by rules of their own. -/
def Transforms : Operation → Prop
  | simplify | differentiate _ _ | differentiateRoot _ | differentiateTimes _ _ | compact => True
  | _ => False

/-- Differentiation is of a live node. What is to be replaced is live; what is to take its place
is a copy or live as well, and then only an operand is accepted. Either may be no node at all. -/
def Allowed (w : Workspace) : Operation → Prop
  | differentiate i _ => w.forest.Live i ∨ w.forest.size ≤ i
  | replace old new => (w.forest.Live old ∨ w.forest.size ≤ old) ∧
      (w.forest.Live new ∨ new ∈ w.spare ∨ w.forest.size ≤ new)
  | _ => True

end Operation

namespace Workspace

def after [Elementary] (w : Workspace) (sink : Sink σ) (notes : σ) (op : Operation) :
    Workspace :=
  match op.change sink ⟨w.forest, notes⟩ with
  | .ok made ⟨f, _⟩ => ⟨f, made.toList ++ op.keeps w.spare⟩
  | .error _ ⟨f, _⟩ => ⟨f, w.spare⟩

inductive Reached [Elementary] : Workspace → Prop where
  | ofInfix {text : String} {f : Forest} (made : Forest.ofInfix text = .ok f) : Reached ⟨f, []⟩
  | ofPolish {text : String} {f : Forest} (made : Forest.ofPolish text = .ok f) :
    Reached ⟨f, []⟩
  | step {w : Workspace} {σ : Type} (sink : Sink σ) (notes : σ) (op : Operation)
    (before : Reached w) (allowed : op.Allowed w) : Reached (w.after sink notes op)
  | derivatives {w : Workspace} {σ : Type} {sink : Sink σ} {symbol : Char} {n : Nat}
    {notes notes' : σ} {gs : List Forest} {g : Forest} (before : Reached w)
    (made : w.forest.derivatives sink symbol n notes = .ok gs notes') (mem : g ∈ gs) :
    Reached ⟨g, []⟩
  | expand {w : Workspace} {σ : Type} {sink : Sink σ} {symbol : Char} {center : Float}
    {n : Nat} {notes notes' : σ} {g : Forest} (before : Reached w)
    (made : w.forest.expand sink symbol center n notes = .ok g notes') : Reached ⟨g, []⟩

/-- A tree lives, and the copies stand beside it. -/
def Sound (w : Workspace) : Prop :=
  ∃ m l ts, m.past = 0 ∧ (ts.map Tree.top).Perm w.spare ∧ w.forest.Holds m (some l) ts

/-- A tree lives with the mark `m` that has no variable but those of `l`, and the copies stand
beside it. -/
def Within (w : Workspace) (m : Mark) (l : Tree) : Prop :=
  ∃ u ts, u.term.names ⊆ l.term.names ∧ (ts.map Tree.top).Perm w.spare ∧
    w.forest.Holds m (some u) ts

variable {w : Workspace} {f g : Forest} {m : Mark} {l u : Tree} {ts : List Tree}

theorem Within.sound (past : m.past = 0) (h : w.Within m l) : w.Sound := by
  obtain ⟨u, ts, -, spare, held⟩ := h
  exact ⟨m, u, ts, past, spare, held⟩

theorem sound_of_holds (past : m.past = 0) (h : f.Holds m (some l) []) : Sound ⟨f, []⟩ :=
  ⟨m, l, [], past, .refl _, h⟩

theorem sound_of_ofTerm {t : Term Char} (made : Forest.ofTerm t = .ok f) : Sound ⟨f, []⟩ := by
  obtain ⟨u, g, hg, -, held⟩ := Forest.ofTerm_ok t
  rw [hg] at made
  cases made
  exact sound_of_holds rfl held

theorem resultless_ok {α : Type} {x : Watch σ α} {a : α} {s s' : Watched σ}
    (h : x s = .ok a s') : Operation.resultless x s = .ok none s' :=
  bind_ok (discard_ok h)

theorem resultless_error {α : Type} {x : Watch σ α} {e : Fault} {s s' : Watched σ}
    (h : x s = .error e s') : Operation.resultless x s = .error e s' :=
  bind_error (discard_error h)

section

variable [Elementary] {sink : Sink σ} {notes notes' : σ} {op : Operation}

theorem within_of_ok {made : Option Nat}
    (h : op.change sink ⟨w.forest, notes⟩ = .ok made ⟨g, notes'⟩)
    (names : u.term.names ⊆ l.term.names)
    (spare : (ts.map Tree.top).Perm (made.toList ++ op.keeps w.spare))
    (held : g.Holds m (some u) ts) : (w.after sink notes op).Within m l := by
  have after : w.after sink notes op = ⟨g, made.toList ++ op.keeps w.spare⟩ := by
    simp only [Workspace.after, h]
  rw [after]
  exact ⟨u, ts, names, spare, held⟩

theorem within_of_error {e : Fault}
    (h : op.change sink ⟨w.forest, notes⟩ = .error e ⟨g, notes'⟩)
    (spare : (ts.map Tree.top).Perm w.spare) (held : g.Holds m (some l) ts) :
    (w.after sink notes op).Within m l := by
  have after : w.after sink notes op = ⟨g, w.spare⟩ := by
    simp only [Workspace.after, h]
  rw [after]
  exact ⟨l, ts, List.Subset.refl _, spare, held⟩

theorem sound_of_ok {made : Option Nat}
    (h : op.change sink ⟨w.forest, notes⟩ = .ok made ⟨g, notes'⟩) (past : m.past = 0)
    (spare : (ts.map Tree.top).Perm (made.toList ++ op.keeps w.spare))
    (held : g.Holds m (some l) ts) : (w.after sink notes op).Sound :=
  (within_of_ok h (List.Subset.refl _) spare held).sound past

theorem sound_of_error {e : Fault}
    (h : op.change sink ⟨w.forest, notes⟩ = .error e ⟨g, notes'⟩) (past : m.past = 0)
    (spare : (ts.map Tree.top).Perm w.spare) (held : g.Holds m (some l) ts) :
    (w.after sink notes op).Sound :=
  (within_of_error h spare held).sound past

/-! ### Transformations -/

section

variable (sink : Sink σ) (notes : σ) (spare : (ts.map Tree.top).Perm w.spare)
  (held : w.forest.Holds m (some l) ts)

include spare held

theorem within_simplify : (w.after sink notes .simplify).Within m l := by
  obtain ⟨u, g, notes', n, hg, term, held⟩ := Watch.simplify_spec sink notes held
  refine within_of_ok (resultless_ok hg) ?_ spare held
  rw [term, Forest.settle_passLimit]
  exact Term.names_pass_subset _

theorem within_differentiate {i : Nat} (key : Key)
    (named : w.forest.Live i ∨ w.forest.size ≤ i) :
    (w.after sink notes (.differentiate i key)).Within m l := by
  rcases named with live | outside
  · obtain ⟨k, t, rfl, rfl⟩ := Tree.exists_plug (held.live_iff.mp live)
    obtain ⟨u, g, notes', hg, term, held⟩ := Watch.differentiate_part sink key notes held
    refine within_of_ok (resultless_ok hg) (k.names_plug_subset ?_) spare held
    rw [term]
    exact Term.names_derivative_subset key _
  · have absent : w.forest.absent? i = some .missingNode := if_neg (Nat.not_lt.mpr outside)
    have failed : Watch.differentiate sink i key ⟨w.forest, notes⟩ =
        .error .missingNode ⟨w.forest, notes⟩ :=
      bind_error (Watch.act_error (Edit.require_error absent))
    exact within_of_error (resultless_error failed) spare held

theorem within_differentiateRoot (symbol : Char) :
    (w.after sink notes (.differentiateRoot symbol)).Within m l := by
  by_cases defined : m.Defines symbol
  · obtain ⟨u, g, notes', hg, term, held⟩ := Watch.differentiateRoot_ok sink notes defined held
    refine within_of_ok (resultless_ok hg) ?_ spare held
    rw [term]
    exact Term.names_derivative_subset _ _
  · have failed := Watch.differentiateRoot_error sink notes defined held
    exact within_of_error (resultless_error failed) spare held

theorem within_differentiateTimes (symbol : Char) (n : Nat) :
    (w.after sink notes (.differentiateTimes symbol n)).Within m l := by
  by_cases defined : m.Defines symbol
  · obtain ⟨u, g, notes', hg, term, held⟩ :=
      Watch.differentiateTimes_ok sink n notes defined held
    refine within_of_ok (resultless_ok hg) ?_ ?_ held
    · rw [term]
      exact List.Subset.trans (Term.names_slopes_subset _ n _) (Term.names_pass_subset _)
    · by_cases zero : n = 0
      · simpa [Operation.keeps, zero] using spare
      · simp [Operation.keeps, zero]
  · have failed := Watch.differentiateTimes_error sink n notes defined held
    exact within_of_error (resultless_error failed) spare held

omit spare in
theorem within_compact : (w.after sink notes .compact).Within m l := by
  obtain ⟨u, term, held⟩ := held.compact m.past
  exact ⟨u, [], by rw [term]; exact List.Subset.refl _, .refl _, held⟩

/-- No transformation brings in a variable or touches the registry. -/
theorem within_transform (transforms : op.Transforms) (allowed : op.Allowed w) :
    (w.after sink notes op).Within m l := by
  cases op with
  | simplify => exact within_simplify sink notes spare held
  | differentiate i key => exact within_differentiate sink notes spare held key allowed
  | differentiateRoot symbol => exact within_differentiateRoot sink notes spare held symbol
  | differentiateTimes symbol n => exact within_differentiateTimes sink notes spare held symbol n
  | compact => exact within_compact sink notes held
  | _ => exact absurd transforms id

end

theorem Sound.transform (sink : Sink σ) (notes : σ) (transforms : op.Transforms)
    (allowed : op.Allowed w) (sound : w.Sound) : (w.after sink notes op).Sound := by
  obtain ⟨m, l, ts, past, spare, held⟩ := sound
  exact (within_transform sink notes spare held transforms allowed).sound past

/-! ### Other operations -/

theorem Sound.make (sink : Sink σ) (notes : σ) {x : Edit Nat} (grows : x.Grows)
    (change : op.change sink = some <$> Watch.act x) (keeps : op.keeps w.spare = w.spare)
    (sound : w.Sound) : (w.after sink notes op).Sound := by
  obtain ⟨m, l, ts, past, spare, held⟩ := sound
  rcases grows held with ⟨u, g, m', hg, past', held⟩ | ⟨e, g, m', failed, past', held⟩
  · have done : op.change sink ⟨w.forest, notes⟩ = .ok (some u.top) ⟨g, notes⟩ := by
      rw [change]
      exact map_ok some (Watch.act_ok hg)
    refine sound_of_ok done (past'.trans past) ?_ held
    rw [keeps]
    exact spare.cons u.top
  · have failed : op.change sink ⟨w.forest, notes⟩ = .error e ⟨g, notes⟩ := by
      rw [change]
      exact map_error some (Watch.act_error failed)
    exact sound_of_error failed (past'.trans past) spare held

theorem Sound.replace (sink : Sink σ) (notes : σ) {old new : Nat} (sound : w.Sound)
    (allowed : (Operation.replace old new).Allowed w) :
    (w.after sink notes (.replace old new)).Sound := by
  obtain ⟨m, l, ts, past, spare, held⟩ := sound
  have absent := @Forest.replace_absent w.forest old new
  obtain ⟨hold | hold, hnew⟩ := allowed
  · rw [held.live_iff] at hold
    rcases hnew with hnew | hnew | hnew
    · rw [held.live_iff] at hnew
      have apart : new ∉ w.spare := by
        intro mem
        obtain ⟨t, ht, rfl⟩ := List.mem_map.mp (spare.mem_iff.mpr mem)
        exact held.stands.notMem_tail hnew (Forest.mem_nodesOf.mpr ⟨t, ht, t.top_mem_nodes⟩)
      rcases held.replace_live hold hnew with ⟨l', g, hg, held⟩ | ⟨e, failed⟩
      · refine sound_of_ok (resultless_ok (Watch.act_ok hg)) past ?_ held
        rw [Operation.keeps, List.erase_of_not_mem apart]
        exact spare
      · exact sound_of_error (resultless_error (Watch.act_error failed)) past spare held
    · -- the copy leaves the spare ones
      obtain ⟨n, hn, rfl⟩ := List.mem_map.mp (spare.mem_iff.mpr hnew)
      obtain ⟨us, vs, rfl⟩ := List.append_of_mem hn
      obtain ⟨k, s, rfl, rfl⟩ := Tree.exists_plug hold
      obtain ⟨hg, held⟩ := (held.perm List.perm_middle).replace
      refine sound_of_ok (resultless_ok (Watch.act_ok hg)) past ?_ held
      have rest := ((List.perm_middle.map Tree.top).symm.trans spare).erase n.top
      rwa [List.map_cons, List.erase_cons_head] at rest
    · have failed := absent (Or.inr hnew)
      exact sound_of_error (resultless_error (Watch.act_error failed)) past spare held
  · have failed := absent (Or.inl hold)
    exact sound_of_error (resultless_error (Watch.act_error failed)) past spare held

/-- An operation on the registry alone. -/
theorem Sound.reregister (sink : Sink σ) (notes : σ) {α : Type} {x : Edit α} {a : α}
    {r : Registry} (change : op.change sink = Operation.resultless (Watch.act x))
    (hx : x w.forest = .ok a { w.forest with registry := r })
    (keeps : op.keeps w.spare = w.spare) (sound : w.Sound) :
    (w.after sink notes op).Sound := by
  obtain ⟨m, l, ts, past, spare, held⟩ := sound
  have done : op.change sink ⟨w.forest, notes⟩ =
      .ok none ⟨{ w.forest with registry := r }, notes⟩ := by
    rw [change]
    exact resultless_ok (Watch.act_ok hx)
  refine sound_of_ok (m := ⟨r, m.past⟩) done past ?_ (held.reregister r)
  rw [keeps]
  exact spare

theorem Sound.assign (sink : Sink σ) (notes : σ) (symbol : Char) (value : Float)
    (sound : w.Sound) : (w.after sink notes (.assign symbol value)).Sound := by
  cases entered : w.forest.registry.assign? symbol value with
  | some r =>
    refine sound.reregister (x := Edit.assign symbol value) (a := ()) (r := r) sink notes rfl ?_ rfl
    simp only [Edit.assign, entered]
  | none =>
    obtain ⟨m, l, ts, past, spare, held⟩ := sound
    have failed : Edit.assign symbol value w.forest = .error (.undefined symbol) w.forest := by
      simp only [Edit.assign, entered]
    exact sound_of_error (resultless_error (Watch.act_error failed)) past spare held

theorem Sound.step (sink : Sink σ) (notes : σ) (sound : w.Sound) (allowed : op.Allowed w) :
    (w.after sink notes op).Sound := by
  cases op with
  | simplify | differentiate | differentiateRoot | differentiateTimes | compact =>
    exact sound.transform sink notes trivial allowed
  | copy i => exact sound.make sink notes (Edit.copy_grows i) rfl rfl
  | graft other i => exact sound.make sink notes (Edit.graft_grows other i) rfl rfl
  | replace old new => exact sound.replace sink notes allowed
  | register symbol =>
    exact sound.reregister sink notes rfl (Edit.register_eq symbol w.forest) rfl
  | assign symbol value => exact sound.assign sink notes symbol value
  | clear => exact sound.reregister (x := Edit.clear) sink notes rfl rfl rfl

/-! ### Every run -/

theorem Reached.sound (reached : w.Reached) : w.Sound := by
  induction reached with
  | @ofInfix text f made =>
    obtain ⟨t, -, made⟩ := Except.bind_eq_ok made
    exact sound_of_ofTerm made
  | @ofPolish text f made =>
    obtain ⟨t, -, made⟩ := Except.bind_eq_ok made
    exact sound_of_ofTerm made
  | step sink notes op _ allowed ih => exact ih.step sink notes allowed
  | @derivatives w _ sink symbol n notes notes' gs g _ made mem ih =>
    obtain ⟨m, l, ts, past, -, held⟩ := ih
    by_cases defined : m.Defines symbol
    · obtain ⟨gs', _, made', -, rest⟩ := Forest.derivatives_ok sink n notes defined held
      rw [made'] at made
      cases made
      obtain ⟨k, hk⟩ := List.mem_iff_getElem?.mp mem
      obtain ⟨u, -, held⟩ := (rest k g hk).holds 0
      exact sound_of_holds rfl held
    · rw [Forest.derivatives_error sink n notes defined held] at made
      cases made
  | expand _ made =>
    obtain ⟨vs, -, u, -, -, held⟩ := Forest.expand_eq_ok made
    exact sound_of_holds rfl held

/-- In every state of every run the live expression is a tree, and no live node is among the
retired ones. -/
theorem reached_treeShaped (reached : w.Reached) :
    (∃ r, w.forest.root = some r) ∧ w.forest.TreeShaped ∧
      ∀ i ∈ w.forest.retired, ¬ w.forest.Live i := by
  obtain ⟨m, l, ts, past, -, held⟩ := reached.sound
  exact ⟨⟨_, held.root⟩, held.treeShaped, fun i hi => held.unretired past hi⟩

end

/-- A copy of the sine takes the place of the variable in it. -/
theorem reached_sine_of_sine :
    let f : Forest := ⟨#[.var (.ofSymbol 'x'), .unary .sin 0], #[some 1, none], some 1, #[],
      ⟨[⟨'x', none⟩]⟩⟩
    let w₁ := (⟨f, []⟩ : Workspace).after Sink.silent () (.copy 1)
    let w₂ := w₁.after Sink.silent () (.replace 0 3)
    Forest.ofInfix "sin(x)" = .ok f ∧ w₁.spare = [3] ∧ w₁.forest.Live 0 ∧
      (∃ r, w₂.forest.root = some r) ∧ w₂.forest.TreeShaped ∧
        ∀ i ∈ w₂.forest.retired, ¬ w₂.forest.Live i := by
  intro f w₁ w₂
  have made : Forest.ofInfix "sin(x)" = .ok f := by decide +kernel
  have spare : w₁.spare = [3] := by decide +kernel
  have root : w₁.forest.root = some 1 := by decide +kernel
  have slot : 0 ∈ w₁.forest.slots 1 := by decide +kernel
  have live : w₁.forest.Live 0 := ⟨1, root, .single slot⟩
  have copied : Reached w₁ := .step Sink.silent () (.copy 1) (.ofInfix made) trivial
  have allowed : (Operation.replace 0 3).Allowed w₁ :=
    ⟨Or.inl live, Or.inr (Or.inl (by simp [spare]))⟩
  exact ⟨made, spare, live,
    reached_treeShaped (.step Sink.silent () (.replace 0 3) copied allowed)⟩

end Workspace

end Fluxion
