import Fluxion.Proofs.Polish.Rereading
import Fluxion.Proofs.Registrations
import Fluxion.Proofs.Simplification.Preservation
import Fluxion.Typesetting

/-!
# Variables under transformation

Simplification, differentiation and compaction bring no variable into the live expression and
leave the registry alone. So the variables of a forest that was read stay those of its text.
They can be written, and nothing but their values decides what it evaluates to.
-/

namespace Fluxion

namespace Forest

variable {f : Forest} {m : Mark} {l : Tree} {ts : List Tree} {names : List Char}

/-! ### Registered variables -/

theorem exists_foldM_naming {r : Registry} {t : Term Key}
    (registered : ∀ key ∈ t.names, ∃ e, r.find? key = some e) :
    ∃ u, t.foldM (naming r) = .ok u := by
  induction t with
  | number x => exact ⟨.number x, rfl⟩
  | var key =>
    obtain ⟨e, found⟩ := registered key List.mem_cons_self
    exact ⟨.var e.symbol, by simp only [Term.foldM, naming, found]⟩
  | unary op t ih =>
    obtain ⟨u, run⟩ := ih registered
    exact ⟨.unary op u, by rw [Term.foldM, run]; rfl⟩
  | binary op s t ihs iht =>
    rw [Term.names, List.forall_mem_append] at registered
    obtain ⟨u, runLeft⟩ := ihs registered.1
    obtain ⟨v, runRight⟩ := iht registered.2
    exact ⟨.binary op u v, by rw [Term.foldM, runLeft, runRight]; rfl⟩

/-- With all its variables registered, a live tree can be written. -/
theorem Holds.exists_polish (h : f.Holds m (some l) ts)
    (registered : ∀ key ∈ l.term.names, ∃ e, f.registry.find? key = some e) :
    ∃ written, f.polish = .ok written := by
  obtain ⟨u, run⟩ := exists_foldM_naming registered
  have root : f.root = some l.top := h.root
  refine ⟨Polish.write u, ?_⟩
  simp only [polish, root]
  rw [program_eq h.fits_live, Algebra.run_program, run]
  rfl

variable [Elementary]

/-- And evaluation fails only with a signal, or for want of one of their values. -/
theorem Holds.value_error (h : f.Holds m (some l) ts)
    (registered : ∀ key ∈ l.term.names, ∃ e, f.registry.find? key = some e ∧ e.symbol ∈ names)
    {e : Fault} (failed : f.value = .error e) :
    (∃ c, e = .numeric c) ∨ ∃ c ∈ names, e = .unbound c := by
  rw [h.value_eq] at failed
  rcases Term.value_error failed with signal | ⟨key, hk, missing⟩
  · exact Or.inl signal
  · obtain ⟨entry, found, mem⟩ := registered key hk
    rcases Registry.value_eq_error missing with ⟨absent, -⟩ | ⟨entry', found', rfl⟩
    · rw [found] at absent
      cases absent
    · rw [found] at found'
      cases found'
      exact Or.inr ⟨entry.symbol, mem, rfl⟩

end Forest

/-! ### Runs of transformations -/

namespace Workspace

/-- What comes of transformations, of which any may fail. -/
inductive Transformed [Elementary] (w : Workspace) : Workspace → Prop where
  | refl : Transformed w w
  | step {w' : Workspace} {σ : Type} (sink : Sink σ) (notes : σ) (op : Operation)
    (before : Transformed w w') (transforms : op.Transforms) (allowed : op.Allowed w') :
    Transformed w (w'.after sink notes op)

variable [Elementary] {w w' : Workspace} {m : Mark} {l : Tree} {op : Operation}

theorem Within.transform {σ : Type} (h : w.Within m l) (sink : Sink σ) (notes : σ)
    (transforms : op.Transforms) (allowed : op.Allowed w) :
    (w.after sink notes op).Within m l := by
  obtain ⟨u, ts, names, spare, held⟩ := h
  obtain ⟨v, ts', names', spare', held'⟩ :=
    within_transform sink notes spare held transforms allowed
  exact ⟨v, ts', List.Subset.trans names' names, spare', held'⟩

theorem Transformed.within (transformed : Transformed w w') (h : w.Within m l) :
    w'.Within m l := by
  induction transformed with
  | refl => exact h
  | step sink notes op _ transforms allowed ih => exact ih.transform sink notes transforms allowed

/-- One transformation takes variables away and adds none. -/
theorem Within.liveKeys_subset {σ : Type} (h : w.Within m l) (sink : Sink σ) (notes : σ)
    (transforms : op.Transforms) (allowed : op.Allowed w) :
    (w.after sink notes op).forest.liveKeys ⊆ w.forest.liveKeys := by
  obtain ⟨u, ts, -, spare, held⟩ := h
  obtain ⟨v, ts', names, -, held'⟩ := within_transform sink notes spare held transforms allowed
  intro key hk
  rw [held'.mem_liveKeys] at hk
  rw [held.mem_liveKeys]
  exact names hk

end Workspace

namespace Forest

variable {f : Forest} {t : Term Char}

namespace Read

variable (read : f.Read t) {key : Key} (hk : key ∈ (t.map Key.ofSymbol).names)

include read hk

/-- The keys are those of symbols that were read, and found under such symbols. -/
theorem exists_find? : ∃ c ∈ t.names, key = .ofSymbol c ∧
    ∃ e, f.registry.find? key = some e ∧ e.symbol ∈ t.names := by
  rw [Term.names_map] at hk
  obtain ⟨c, hc, rfl⟩ := List.mem_map.mp hk
  obtain ⟨e, found⟩ := Option.isSome_iff_exists.mp (read.findSymbol? hc)
  refine ⟨c, hc, rfl, e, found, ?_⟩
  rw [← Registry.named_of_findSymbol? found]
  exact read.named_mem hc

variable {r r' : Registry} (more : f.registry.symbols <+: r.symbols)

include more

/-- That stays so, whatever is assigned and whatever else is registered. -/
theorem exists_find?_of_prefix : ∃ e, r.find? key = some e ∧ e.symbol ∈ t.names := by
  obtain ⟨-, -, -, e, found, mem⟩ := read.exists_find? hk
  obtain ⟨e', found', same⟩ := Registry.exists_find?_of_prefix more found
  exact ⟨e', found', same ▸ mem⟩

theorem value_eq (more' : f.registry.symbols <+: r'.symbols)
    (agree : ∀ c ∈ t.names,
      (r'.findSymbol? c).bind Entry.value = (r.findSymbol? c).bind Entry.value) :
    r'.value key = r.value key := by
  obtain ⟨c, hc, rfl, e, found, -⟩ := read.exists_find? hk
  exact Registry.value_eq_of_prefix found more' more (agree c hc)

end Read

/-- No use of a forest loses a symbol or registers a key twice. In a forest that was read, no
transformation brings in a variable: those that are live are registered under symbols that were
read, and only their values decide on the value of the live expression. -/
theorem no_new_variables [Elementary] :
    (∀ f : Forest, f.Obtained → f.registry.Distinct ∧
      (∀ e ∈ f.registry.entries, f.registry.findSymbol? e.symbol = some e) ∧
      ∀ {σ : Type} (sink : Sink σ) (notes : σ) (u : Use),
        f.registry.symbols <+: (u.after f sink notes).registry.symbols) ∧
    ∀ (f : Forest) (t : Term Char), f.Read t → ∀ w, Workspace.Transformed ⟨f, []⟩ w →
      w.forest.registry = f.registry ∧
      (∀ {σ : Type} (sink : Sink σ) (notes : σ) (op : Operation), op.Transforms → op.Allowed w →
        (w.after sink notes op).forest.liveKeys ⊆ w.forest.liveKeys) ∧
      ∀ r : Registry, f.registry.symbols <+: r.symbols →
        let g : Forest := { w.forest with registry := r }
        (∀ key ∈ g.liveKeys, ∃ e, r.find? key = some e ∧ e.symbol ∈ t.names ∧
          Phrase.variableName r key = e.symbol.toString) ∧
        (∃ written, g.polish = .ok written) ∧
        (∀ e, g.value = .error e → (∃ c, e = .numeric c) ∨ ∃ c ∈ t.names, e = .unbound c) ∧
        ∀ r' : Registry, f.registry.symbols <+: r'.symbols →
          (∀ c ∈ t.names, (r'.findSymbol? c).bind Entry.value =
            (r.findSymbol? c).bind Entry.value) →
          ({ w.forest with registry := r' } : Forest).value = g.value := by
  constructor
  · intro f obtained
    exact ⟨obtained.distinct, fun e he => obtained.distinct.findSymbol? he,
      symbols_use obtained.distinct⟩
  · intro f t read w transformed
    have start : Workspace.Within ⟨f, []⟩ _ _ :=
      ⟨_, [], List.Subset.refl _, .refl _, read.laid.held⟩
    have within := transformed.within start
    have shrinks {σ : Type} (sink : Sink σ) (notes : σ) (op : Operation)
        (transforms : op.Transforms) (allowed : op.Allowed w) :
        (w.after sink notes op).forest.liveKeys ⊆ w.forest.liveKeys :=
      within.liveKeys_subset sink notes transforms allowed
    obtain ⟨u, ts, names, -, held⟩ := within
    rw [Term.term_laid] at names
    refine ⟨?_, shrinks, fun r more => ?_⟩
    · rw [held.stands.registry, read.laid.registry]
    · have heldWith := held.reregister r
      have registered (key) (hk : key ∈ u.term.names) :=
        read.exists_find?_of_prefix (names hk) more
      refine ⟨fun key hk => ?_, ?_, fun e => heldWith.value_error registered, ?_⟩
      · rw [heldWith.mem_liveKeys] at hk
        obtain ⟨e, found, mem⟩ := registered key hk
        exact ⟨e, found, mem, by simp only [Phrase.variableName, found]⟩
      · apply heldWith.exists_polish
        intro key hk
        obtain ⟨e, found, -⟩ := registered key hk
        exact ⟨e, found⟩
      · intro r' more' agree
        rw [(held.reregister r').value_eq, heldWith.value_eq]
        exact Term.value_congr fun key hk => read.value_eq (names hk) more more' agree

/-- The derivative with respect to `x` of `2 * y + x / y` has one variable left, and a symbol that
is registered later does not matter to it. -/
theorem no_new_variables_quotient :
    let := Elementary.coarse
    let f := quotientAndMultiple
    let t : Term Char := .binary .add (.binary .mul (.number 2) (.var 'y'))
      (.binary .div (.var 'x') (.var 'y'))
    let w := ((⟨f, []⟩ : Workspace).after Sink.silent () (.differentiateRoot 'x')).after
      Sink.silent () .simplify
    let r : Registry := ⟨[⟨'y', some 2⟩, ⟨'x', some 3⟩]⟩
    let r' : Registry := ⟨[⟨'y', some 2⟩, ⟨'x', some 3⟩, ⟨'z', some 5⟩]⟩
    f.Obtained ∧ f.registry.Distinct ∧ f.Read t ∧ Workspace.Transformed ⟨f, []⟩ w ∧
      w.forest.registry = f.registry ∧
      (w.after Sink.silent () .compact).forest.liveKeys ⊆ w.forest.liveKeys ∧
      (∃ written, ({ w.forest with registry := r } : Forest).polish = .ok written) ∧
      ({ w.forest with registry := r' } : Forest).value =
        ({ w.forest with registry := r } : Forest).value := by
  intro inst f t w r r'
  have obtained : f.Obtained := .ofInfix ofInfix_quotientAndMultiple
  have read : f.Read t := .ofInfix (by decide) ofInfix_quotientAndMultiple
  have transformed : Workspace.Transformed ⟨f, []⟩ w :=
    .step Sink.silent () .simplify (.step Sink.silent () (.differentiateRoot 'x') .refl trivial
      trivial) trivial trivial
  have all : (t.names.all fun c => decide ((r'.findSymbol? c).bind Entry.value =
      (r.findSymbol? c).bind Entry.value)) = true := by
    decide
  have agree (c) (hc : c ∈ t.names) := of_decide_eq_true (List.all_eq_true.mp all c hc)
  obtain ⟨registries, runs⟩ := no_new_variables
  obtain ⟨registry, shrinks, registered⟩ := runs f t read w transformed
  obtain ⟨-, written, -, values⟩ := registered r ⟨[], rfl⟩
  refine ⟨obtained, (registries f obtained).1, read, transformed, registry,
    shrinks Sink.silent () .compact trivial trivial, written, values r' ⟨['z'], rfl⟩ agree⟩

end Forest

end Fluxion
