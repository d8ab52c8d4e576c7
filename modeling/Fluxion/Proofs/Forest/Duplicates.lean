import Fluxion.Proofs.Forest.Beside
import Fluxion.Proofs.Forest.Laid
import Fluxion.Proofs.Forest.Sized
import Fluxion.Proofs.Forest.Unfolding
import Fluxion.Proofs.Simplification.Preservation

/-!
# Duplicates

A copy is a tree of new nodes, one for each node of the term, even where the source uses a node
more than once. What was there before is not touched, whatever had been done to it. So copies
succeed in every forest, of nodes of the forest itself and of others. A graft registers the
symbols of its variables under the keys that are not taken.
-/

namespace Fluxion

namespace Forest

variable {f g k : Forest} {s t : Tree}

/-- In `g` the tree stands detached beside what was in `f`. The registry may be another. -/
structure Gains (f g : Forest) (t : Tree) : Prop where
  sized : g.Sized
  beside : Beside { f with registry := g.registry } g
  fits : t.Fits g.cells
  new : f.size ≤ t.top
  detached : g.parent t.top = none

/-! ### One more cell -/

theorem Sized.gains_leaf (h : f.Sized) (r : Registry) {c : Cell} (leaf : c.slots = [])
    (fits : t.Fits (Forest.push { f with registry := r } c).cells) (top : t.top = f.size) :
    f.Gains (Forest.push { f with registry := r } c) t where
  sized := (h.reregister r).push c
  beside := (Beside.refl _).push (by simp [leaf])
  fits := fits
  new := Nat.le_of_eq top.symm
  detached := by
    rw [parent_push, top]
    exact parent_of_le h.sizes (Nat.le_refl _)

theorem Sized.gains_number (h : f.Sized) (x : Float) :
    f.Gains (f.push (.number x)) (.number f.size x) :=
  h.gains_leaf f.registry rfl (cells_push_size f _) rfl

theorem Sized.gains_var (h : f.Sized) (r : Registry) (key : Key) :
    f.Gains (Forest.push { f with registry := r } (.var key)) (.var f.size key) :=
  h.gains_leaf r rfl (cells_push_size _ _) rfl

namespace Gains

theorem root_ne (gains : f.Gains g t) (base : f.Sized) : g.root ≠ some t.top := by
  rw [gains.beside.root]
  intro root
  exact absurd (base.root_lt t.top root) (Nat.not_lt.mpr gains.new)

theorem unfree?_eq_none (gains : f.Gains g t) (base : f.Sized) : g.unfree? t.top = none :=
  unfree?_eq_none_iff.mpr ⟨gains.fits.top_lt, gains.detached, gains.root_ne base⟩

/-- The first of two trees stays as it is when the second one is built. -/
theorem first (left : f.Gains g s) (right : g.Gains k t) : f.Gains k s where
  sized := right.sized
  beside := (left.beside.reregister k.registry).trans right.beside
  fits := right.beside.fits left.fits
  new := left.new
  detached := (right.beside.parents s.top left.fits.top_lt).trans left.detached

theorem second (left : f.Gains g s) (right : g.Gains k t) : f.Gains k t where
  sized := right.sized
  beside := (left.first right).beside
  fits := right.fits
  new := left.beside.size_le.trans right.new
  detached := right.detached

theorem unary (gains : f.Gains g t) (base : f.Sized) (op : Unary) :
    ∃ g', Edit.applyUnary op t.top g = .ok g.size g' ∧ f.Gains g' (.unary g.size op t) ∧
      g'.registry = g.registry := by
  have last : t.top ≠ g.size := Nat.ne_of_lt gains.fits.top_lt
  have slots : ∀ a ∈ (Cell.unary op t.top).slots, f.size ≤ a := by
    simpa [Cell.slots] using gains.new
  refine ⟨_, applyUnary_ok op (gains.unfree?_eq_none base), ⟨?_, ?_, ?_, ?_, ?_⟩, rfl⟩
  · exact (gains.sized.push _).link _ _
  · exact (gains.beside.push slots).link _ gains.new
  · exact ⟨cells_push_size g _, gains.fits.congr fun i hi =>
      cells_push_of_lt (gains.fits.lt i hi)⟩
  · exact gains.beside.size_le
  · rw [Tree.top, parent_link_of_ne _ last, parent_push]
    exact parent_of_le gains.sized.sizes (Nat.le_refl _)

theorem binary (left : f.Gains g s) (right : g.Gains k t) (base : f.Sized) (op : Binary) :
    ∃ k', Edit.applyBinary op s.top t.top k = .ok k.size k' ∧
      f.Gains k' (.binary k.size op s t) ∧ k'.registry = k.registry := by
  have first := left.first right
  have second := left.second right
  have apart : s.top ≠ t.top := Nat.ne_of_lt (left.fits.top_lt.trans_le right.new)
  have firstLast : s.top ≠ k.size := Nat.ne_of_lt first.fits.top_lt
  have secondLast : t.top ≠ k.size := Nat.ne_of_lt second.fits.top_lt
  have slots : ∀ a ∈ (Cell.binary op s.top t.top).slots, f.size ≤ a := by
    simpa [Cell.slots] using ⟨first.new, second.new⟩
  have old {u : Tree} (fits : u.Fits k.cells) : u.Fits (k.push (.binary op s.top t.top)).cells :=
    fits.congr fun i hi => cells_push_of_lt (fits.lt i hi)
  refine ⟨_, applyBinary_ok op (first.unfree?_eq_none base) (second.unfree?_eq_none base) apart,
    ⟨?_, ?_, ?_, ?_, ?_⟩, rfl⟩
  · exact ((right.sized.push _).link _ _).link _ _
  · exact ((first.beside.push slots).link _ first.new).link _ second.new
  · exact ⟨cells_push_size k _, old first.fits, old second.fits⟩
  · exact first.beside.size_le
  · rw [Tree.top, parent_link_of_ne _ secondLast, parent_link_of_ne _ firstLast, parent_push]
    exact parent_of_le right.sized.sizes (Nat.le_refl _)

end Gains

/-! ### Whole terms -/

/-- Recursion on a term adds a tree of the term to any forest. -/
theorem Sized.foldM_gains {ν : Type} {alg : Algebra Edit ν Nat} {key : ν → Key}
    {enter : Registry → ν → Registry} (base : f.Sized) (builds : alg.Builds key enter)
    (t : Term ν) :
    ∃ g : Forest, t.foldM alg f = .ok ((t.map key).laid f.size).top g ∧
      f.Gains g ((t.map key).laid f.size) ∧ g.size = f.size + t.size ∧
      g.registry = t.names.foldl enter f.registry := by
  induction t generalizing f with
  | number x =>
    refine ⟨_, ?_, base.gains_number x, size_push f _, rfl⟩
    rw [Term.foldM, builds.number]
    rfl
  | var n =>
    refine ⟨_, ?_, base.gains_var (enter f.registry n) (key n), size_push _ _, rfl⟩
    rw [Term.foldM, builds.var]
    rfl
  | unary op t ih =>
    obtain ⟨g, built, gains, size, registry⟩ := ih base
    obtain ⟨g', hg, gains, same⟩ := gains.unary base op
    have made : (Term.unary op t).foldM alg f = .ok g.size g' := by
      rw [Term.foldM, bind_ok built, builds.unary]
      exact hg
    have grown := (Edit.foldM_adds builds _ f _ g' made).1
    rw [size] at made gains
    rw [Term.map, Term.laid, Term.size_map]
    exact ⟨g', made, gains, grown, same.trans registry⟩
  | binary op s t ihs iht =>
    obtain ⟨g, builtLeft, left, sizeLeft, registryLeft⟩ := ihs base
    obtain ⟨k, builtRight, right, sizeRight, registryRight⟩ := iht left.sized
    obtain ⟨k', hk, gains, same⟩ := left.binary right base op
    have made : (Term.binary op s t).foldM alg f = .ok k.size k' := by
      rw [Term.foldM, bind_ok builtLeft, bind_ok builtRight, builds.binary]
      exact hk
    have grown := (Edit.foldM_adds builds _ f _ k' made).1
    rw [sizeRight, sizeLeft] at made gains
    rw [Term.map, Term.laid, Term.size_map, Term.size_map]
    refine ⟨k', made, gains, grown, ?_⟩
    rw [same, registryRight, registryLeft, Term.names, List.foldl_append]

/-- In `g` the node `d` is the top of a tree of the term that is made of all new nodes. Nothing
else is new but what is in the registry. -/
structure Duplicate (f : Forest) (t : Term Key) (d : Nat) (g : Forest) : Prop where
  detached : g.parent d = none
  unrooted : g.root ≠ some d
  term : g.term? d = some t
  nodes : g.postorder d = List.range' f.size t.size
  size : g.size = f.size + t.size
  kept : Beside { f with registry := g.registry } g

theorem Gains.duplicate {t : Term Key} (gains : f.Gains g (t.laid f.size)) (base : f.Sized)
    (size : g.size = f.size + t.size) : f.Duplicate t (t.laid f.size).top g where
  detached := gains.detached
  unrooted := gains.root_ne base
  term := by rw [term?_eq gains.fits, t.term_laid]
  nodes := by rw [postorder_eq gains.fits, t.nodes_laid]
  size := size
  kept := gains.beside

theorem Sized.copy_ok (base : f.Sized) (fits : s.Fits f.cells) :
    ∃ d g, Edit.copy s.top f = .ok d g ∧ f.Duplicate s.term d g ∧ g.registry = f.registry := by
  obtain ⟨g, built, gains, size, registry⟩ := base.foldM_gains Edit.copying_builds s.term
  rw [Term.map_id] at built gains
  rw [List.foldl_fixed] at registry
  exact ⟨_, g, (Holds.copy_eq fits).trans built, gains.duplicate base size, registry⟩

end Forest

/-! ### Grafts -/

theorem Term.map_map {ν μ ξ : Type} (a : ν → μ) (b : μ → ξ) (t : Term ν) :
    (t.map a).map b = t.map (b ∘ a) := by
  induction t with
  | number x => rfl
  | var n => rfl
  | unary op t ih => rw [map, map, map, ih]
  | binary op s t ihs iht => rw [map, map, map, ihs, iht]

theorem Term.program_map {ν μ : Type} (a : ν → μ) (t : Term ν) :
    (t.map a).program = t.program.map (Step.map a) := by
  induction t with
  | number x => rfl
  | var n => rfl
  | unary op t ih =>
    rw [map, program_unary, program_unary, ih, List.map_append]
    rfl
  | binary op s t ihs iht =>
    rw [map, program_binary, program_binary, ihs, iht, List.map_append, List.map_append]
    rfl

namespace Registry

/-- The symbols that `other` has under those of the keys that are not taken in `r`, in the order
of the keys and without values. -/
def newcomers (r other : Registry) (keys : List Key) : List Entry :=
  (keys.filter fun key => (r.find? key).isNone && (other.find? key).isSome).eraseDups.filterMap
    fun key => (other.find? key).map fun e => ⟨e.symbol, none⟩

/-- The key, with its symbol if it has one. -/
def label (r : Registry) (key : Key) : Option Char × Key := ((r.find? key).map (·.symbol), key)

theorem entries_foldl_enter (r other : Registry) (keys : List Key) :
    ((keys.map other.label).foldl Edit.enter? r).entries =
      r.entries ++ r.newcomers other keys := by
  induction keys generalizing r with
  | nil => simp [newcomers]
  | cons key keys ih =>
    rw [List.map_cons, List.foldl_cons, ih]
    cases found : other.find? key with
    | none =>
      rw [label, found, Option.map_none, Edit.enter?, newcomers, newcomers,
        List.filter_cons_of_neg (by simp [found])]
    | some e =>
      have own : Key.ofSymbol e.symbol = key := key_of_find? found
      rw [label, found, Option.map_some, Edit.enter?]
      cases known : r.find? key with
      | some e' =>
        rw [register, findSymbol?, own, known, newcomers, newcomers,
          List.filter_cons_of_neg (by simp [known])]
      | none =>
        -- the key is taken from now on
        have others : (fun k => ((r.register e.symbol).find? k).isNone && (other.find? k).isSome) =
            fun k => !(k == key) && ((r.find? k).isNone && (other.find? k).isSome) := by
          funext k
          rw [find?_register, own]
          cases r.find? k <;> by_cases same : k = key <;> simp [same]
        rw [newcomers, others, newcomers, List.filter_cons_of_pos (by simp [found, known]),
          List.eraseDups_cons, List.filterMap_cons, found, List.filter_filter, register,
          findSymbol?, own, known]
        simp

end Registry

namespace Forest

variable {f : Forest} {s : Tree}

/-- A graft of an expression that fits is made by recursion on its term. -/
theorem graft_eq {other : Forest} (fits : s.Fits other.cells) (f : Forest) :
    Edit.graft other s.top f = (s.term.map other.registry.label).foldM Edit.grafting f := by
  have present : other.absent? s.top = none := if_pos fits.top_lt
  rw [Edit.graft, present, program_eq fits, ← Algebra.run_program, Term.program_map]
  rfl

theorem Sized.graft_ok (base : f.Sized) {other : Forest} (fits : s.Fits other.cells) :
    ∃ d g, Edit.graft other s.top f = .ok d g ∧ f.Duplicate s.term d g ∧
      g.registry.entries =
        f.registry.entries ++ f.registry.newcomers other.registry s.term.names := by
  obtain ⟨g, built, gains, size, registry⟩ :=
    base.foldM_gains Edit.grafting_builds (s.term.map other.registry.label)
  have keys : (s.term.map other.registry.label).map (·.2) = s.term := by
    rw [Term.map_map]
    exact Term.map_id s.term
  rw [keys] at built gains
  rw [Term.size_map] at size
  rw [Term.names_map] at registry
  refine ⟨_, g, (graft_eq fits f).trans built, gains.duplicate base size, ?_⟩
  rw [registry, Registry.entries_foldl_enter]

theorem exists_fits_of_term? {t : Term Key} {d : Nat} (h : f.term? d = some t) :
    ∃ s : Tree, s.top = d ∧ s.term = t ∧ s.Fits f.cells := by
  obtain ⟨s, rfl, fits⟩ := exists_fits_of_termWithin? h
  rw [term?_eq fits, Option.some.injEq] at h
  exact ⟨s, rfl, h, fits⟩

/-- Whatever has been done to a forest, every node of it or of another one that unfolds to a term
can be copied into it. The copy unfolds to the same term, and has a new node for each node of the
term. A copy from another forest brings in the symbols of its variables, and has the same value as
the source if the variables have. -/
theorem faithful_duplicates [Elementary] {f : Forest} (obtained : f.Obtained) :
    (∀ i, f.AcyclicFrom i → ∃ t d g, f.term? i = some t ∧ Edit.copy i f = .ok d g ∧
      f.Duplicate t d g ∧ g.registry = f.registry) ∧
    ∀ (other : Forest) (i : Nat), other.AcyclicFrom i → ∃ t d g, other.term? i = some t ∧
      Edit.graft other i f = .ok d g ∧ f.Duplicate t d g ∧
      g.registry.entries = f.registry.entries ++ f.registry.newcomers other.registry t.names ∧
      ((∀ key ∈ t.names, g.registry.value key = other.registry.value key) →
        g.evaluate d = other.evaluate i) := by
  have base := obtained.sized
  constructor
  · intro i acyclic
    obtain ⟨s, rfl, fits⟩ := acyclic.exists_tree
    obtain ⟨d, g, hg, duplicate, registry⟩ := base.copy_ok fits
    exact ⟨s.term, d, g, term?_eq fits, hg, duplicate, registry⟩
  · intro other i acyclic
    obtain ⟨s, rfl, fits⟩ := acyclic.exists_tree
    obtain ⟨d, g, hg, duplicate, registry⟩ := base.graft_ok fits
    refine ⟨s.term, d, g, term?_eq fits, hg, duplicate, registry, ?_⟩
    intro agree
    obtain ⟨u, rfl, term, built⟩ := exists_fits_of_term? duplicate.term
    rw [built.evaluate_eq, fits.evaluate_eq, term]
    exact Term.value_congr agree

/-- The forest of `sin(é + x)`, after the sum has taken the place of the sine. -/
def sumUnderOldSine : Forest where
  cells := #[.var (.ofSymbol 'é'), .var (.ofSymbol 'x'), .binary .add 0 1, .unary .sin 2]
  parents := #[some 2, some 2, none, none]
  root := some 2
  retired := #[3]
  registry := ⟨[⟨'é', some 2⟩, ⟨'x', some 3⟩]⟩

/-- The sum is used twice in the product. The key of its second variable is that of `é`. -/
def sharedSum : Forest where
  cells := #[.var (.ofSymbol 'x'), .var (.ofSymbol 'Ĉ'), .binary .add 0 1,
    .var (.ofSymbol 'y'), .binary .mul 2 3, .binary .mul 4 2]
  parents := #[some 2, some 2, some 5, some 4, some 5, none]
  root := some 5
  registry := ⟨[⟨'x', some 3⟩, ⟨'Ĉ', some 2⟩, ⟨'y', some 5⟩]⟩

theorem obtained_sumUnderOldSine : @Obtained .coarse sumUnderOldSine := by
  let sine : Forest := { sumUnderOldSine with
    parents := #[some 2, some 2, some 3, none], root := some 3, retired := #[]
    registry := ⟨[⟨'é', none⟩, ⟨'x', none⟩]⟩ }
  have read : ofPolish "(sin (+ (é nil nil) (x nil nil)) nil)" = .ok sine := by decide +kernel
  have uses : [Use.operation (.assign 'é' 2), .operation (.assign 'x' 3),
      .call (.replace 3 2)].foldl (fun f u => @Use.after Unit .coarse f Sink.silent () u) sine =
        sumUnderOldSine := by
    decide +kernel
  rw [← uses]
  exact @Obtained.uses _ .coarse _ Sink.silent () _ (@Obtained.ofPolish .coarse _ _ read)

/-- The old sine is copied with the sum below it. Of the product only `y` is registered, without
a value, and the shared sum is there twice. The sum alone has the value that it has. -/
theorem faithful_duplicates_sharedSum :
    let f := sumUnderOldSine
    @Obtained .coarse f ∧
      (∃ d g, f.AcyclicFrom 3 ∧ Edit.copy 3 f = .ok d g ∧ g.size = 8 ∧ g.term? d = f.term? 3 ∧
        g.postorder d = [4, 5, 6, 7] ∧ g.registry = f.registry) ∧
      (∃ d g, sharedSum.AcyclicFrom 5 ∧ Edit.graft sharedSum 5 f = .ok d g ∧ g.size = 13 ∧
        g.term? d = sharedSum.term? 5 ∧ g.registry.entries = f.registry.entries ++ [⟨'y', none⟩]) ∧
      ∃ d g, sharedSum.AcyclicFrom 2 ∧ Edit.graft sharedSum 2 f = .ok d g ∧
        g.registry.entries = f.registry.entries ∧
        @evaluate .coarse g d = @evaluate .coarse sharedSum 2 := by
  intro f
  have obtained : @Obtained .coarse f := obtained_sumUnderOldSine
  obtain ⟨copies, grafts⟩ := @faithful_duplicates .coarse f obtained
  have sine : f.AcyclicFrom 3 := isSome_term?_iff.mp (by decide)
  have product : sharedSum.AcyclicFrom 5 := isSome_term?_iff.mp (by decide)
  have sum : sharedSum.AcyclicFrom 2 := isSome_term?_iff.mp (by decide)
  refine ⟨obtained, ?_, ?_, ?_⟩
  · obtain ⟨t, d, g, ht, hg, duplicate, registry⟩ := copies 3 sine
    have read : f.term? 3 = some (.unary .sin (.binary .add (.var (.ofSymbol 'é'))
      (.var (.ofSymbol 'x')))) := by decide
    cases ht.symm.trans read
    exact ⟨d, g, sine, hg, duplicate.size, duplicate.term.trans read.symm, duplicate.nodes,
      registry⟩
  · obtain ⟨t, d, g, ht, hg, duplicate, entries, -⟩ := grafts sharedSum 5 product
    have size : (sharedSum.term? 5).map Term.size = some 9 := by decide
    have names : (sharedSum.term? 5).map (f.registry.newcomers sharedSum.registry ·.names) =
      some [⟨'y', none⟩] := by decide
    rw [ht, Option.map_some, Option.some.injEq] at size names
    rw [names] at entries
    refine ⟨d, g, product, hg, ?_, duplicate.term.trans ht.symm, entries⟩
    rw [duplicate.size, size]
    rfl
  · obtain ⟨t, d, g, ht, hg, -, entries, value⟩ := grafts sharedSum 2 sum
    have read : sharedSum.term? 2 = some (.binary .add (.var (.ofSymbol 'x'))
      (.var (.ofSymbol 'Ĉ'))) := by decide
    cases ht.symm.trans read
    have known : g.registry = f.registry := by
      have none : f.registry.newcomers sharedSum.registry
        [.ofSymbol 'x', .ofSymbol 'Ĉ'] = [] := by decide
      have same : g.registry.entries = f.registry.entries := by
        rw [entries, Term.names, Term.names, Term.names, List.singleton_append, none,
          List.append_nil]
      exact congrArg Registry.mk same
    refine ⟨d, g, sum, hg, congrArg Registry.entries known, value ?_⟩
    have own : [Key.ofSymbol 'x', .ofSymbol 'Ĉ'].map f.registry.value = [.ok 3, .ok 2] := by
      decide
    have theirs : [Key.ofSymbol 'x', .ofSymbol 'Ĉ'].map sharedSum.registry.value =
        [.ok 3, .ok 2] := by
      decide
    rw [known]
    exact List.map_inj_left.mp (own.trans theirs.symm)

end Forest

end Fluxion
