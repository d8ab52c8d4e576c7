import Fluxion.Proofs.Uses

/-!
# Registries in any use

Whatever is done to a forest, even if an expression leads back to itself, no two of its symbols
have one key, no symbol is lost, and the symbols keep their order.
-/

namespace Fluxion

/-- The symbols of `first` come first, and no two symbols have the same key. -/
structure Registry.Begins (first : List Char) (r : Registry) : Prop where
  distinct : r.Distinct
  first : first <+: r.symbols

namespace Registry.Begins

variable {first : List Char} {r r' : Registry}

theorem register (h : r.Begins first) (c : Char) : (r.register c).Begins first := by
  refine ⟨h.distinct.register c, ?_⟩
  rw [symbols_register]
  exact h.first.trans (List.prefix_append _ _)

theorem of_symbols (h : r.Begins first) (same : r'.symbols = r.symbols) : r'.Begins first := by
  constructor
  · rw [Distinct, same]
    exact h.distinct
  · rw [same]
    exact h.first

end Registry.Begins

/-- What every write and compaction keep is kept by every use. -/
theorem KeptByWrites.use [Elementary] {σ : Type} {inv : Forest → Prop}
    (kept : KeptByWrites (fun _ => True) inv) (compact : ∀ f, inv f → inv f.compact) {f : Forest}
    (sink : Sink σ) (notes : σ) (u : Use) (h : inv f) : inv (u.after f sink notes) := by
  have up : Upheld (fun _ => True) (fun _ => True) inv := kept.upheld fun _ _ => trivial
  cases u with
  | call c => exact up.call h c fun _ => compact f h
  | retire i => exact kept.retired f _ h
  | operation op =>
    exact up.afterOperation true_stable sink (fun _ => compact) (fun _ _ _ _ _ _ => trivial) h
      notes

namespace Forest

variable {first : List Char} {f g : Forest}

theorem begins_keptByWrites (first : List Char) :
    KeptByWrites (fun _ => True) fun f => f.registry.Begins first where
  numbers _ _ _ _ _ := trivial
  push _ _ h _ := h
  refill _ _ _ _ h := h
  parents _ _ _ h := h
  root _ _ _ h := h
  retired _ _ h := h
  register _ symbol h := h.register symbol
  assign _ _ _ _ entered h := h.of_symbols (Registry.symbols_assign entered)
  clear f h := h.of_symbols f.registry.symbols_clear

theorem begins_compact (h : f.registry.Begins first) : f.compact.registry.Begins first := by
  rw [registry_compact]
  exact h

section

variable [Elementary] {σ : Type}

/-- One use of a forest leaves its symbols where they are. -/
theorem begins_use (sink : Sink σ) (notes : σ) (u : Use) (h : f.registry.Begins first) :
    (u.after f sink notes).registry.Begins first :=
  (begins_keptByWrites first).use (fun _ => begins_compact) sink notes u h

theorem symbols_use (distinct : f.registry.Distinct) (sink : Sink σ) (notes : σ) (u : Use) :
    f.registry.symbols <+: (u.after f sink notes).registry.symbols :=
  (begins_use sink notes u ⟨distinct, List.prefix_rfl⟩).first

end

/-- What comes of any use. Unlike in `Used`, a live expression that leads back to itself may be
compacted, and forests that are made from others count as well. -/
inductive Obtained [Elementary] : Forest → Prop where
  | empty : Obtained .empty
  | ofInfix {text : String} {f : Forest} (made : ofInfix text = .ok f) : Obtained f
  | ofPolish {text : String} {f : Forest} (made : ofPolish text = .ok f) : Obtained f
  | use {f : Forest} {σ : Type} (sink : Sink σ) (notes : σ) (u : Use) (before : Obtained f) :
    Obtained (u.after f sink notes)
  | derivatives {f g : Forest} {σ : Type} {sink : Sink σ} {symbol : Char} {n : Nat}
    {notes notes' : σ} {gs : List Forest} (before : Obtained f)
    (made : f.derivatives sink symbol n notes = .ok gs notes') (mem : g ∈ gs) : Obtained g
  | expand {f g : Forest} {σ : Type} {sink : Sink σ} {symbol : Char} {center : Float} {n : Nat}
    {notes notes' : σ} (before : Obtained f)
    (made : f.expand sink symbol center n notes = .ok g notes') : Obtained g

theorem Obtained.uses [Elementary] {σ : Type} (sink : Sink σ) (notes : σ) (us : List Use)
    (obtained : f.Obtained) : (us.foldl (fun f u => u.after f sink notes) f).Obtained := by
  induction us generalizing f with
  | nil => exact obtained
  | cons u us ih => exact ih (.use sink notes u obtained)

/-- What every write and compaction keep is kept by all that is done to a forest. A forest that
is made of values has no past. -/
theorem Obtained.kept [Elementary] {inv : Forest → Prop} (kept : KeptByWrites (fun _ => True) inv)
    (compact : ∀ f, inv f → inv f.compact) (start : inv .empty)
    (made : ∀ (g : Forest) (u : Tree) (names : List Char),
      g.Holds ⟨names.foldl Registry.register {}, 0⟩ (some u) [] → inv g)
    (obtained : f.Obtained) : inv f := by
  have up : Upheld (fun _ => True) (fun _ => True) inv := kept.upheld fun _ _ => trivial
  induction obtained with
  | empty => exact start
  | ofInfix parsed =>
    obtain ⟨t, -, parsed⟩ := Except.bind_eq_ok parsed
    exact up.ofTerm parsed (fun _ _ => trivial) start
  | ofPolish parsed =>
    obtain ⟨t, -, parsed⟩ := Except.bind_eq_ok parsed
    exact up.ofTerm parsed (fun _ _ => trivial) start
  | use sink notes u _ ih => exact kept.use compact sink notes u ih
  | derivatives _ listed mem ih => exact up.derivatives true_stable _ compact ih listed _ mem
  | @expand _ g _ _ symbol _ _ _ _ _ expanded =>
    obtain ⟨vs, -, u, -, -, held⟩ := expand_eq_ok expanded
    exact made g u (symbol :: _) held

theorem Obtained.distinct [Elementary] (obtained : f.Obtained) : f.registry.Distinct := by
  have begins : f.registry.Begins [] := by
    apply Obtained.kept (begins_keptByWrites []) (fun _ => begins_compact)
      ⟨Registry.empty_distinct, List.nil_prefix⟩ ?_ obtained
    intro g u names held
    rw [held.stands.registry]
    exact ⟨Registry.empty_distinct.foldl_register names, List.nil_prefix⟩
  exact begins.distinct

end Forest

end Fluxion
