import Fluxion.Forest.Copy
import Fluxion.Proofs.Forest.Surgery
import Fluxion.Proofs.Forest.Traversal

/-!
# Building from programs

The program of a term builds a tree of that term beside the trees that stand. Any other
program builds some tree or fails, and leaves the trees that stand as they are.
-/

namespace Fluxion

namespace Forest

variable {f : Forest} {m : Mark} {live : Option Tree} {ts : List Tree}

theorem Holds.reregister (h : f.Holds m live ts) (r : Registry) :
    Holds { f with registry := r } ⟨r, m.past⟩ live ts where
  root := h.root
  stands :=
    { sizes := h.stands.sizes
      registry := rfl
      fits := h.stands.fits
      linked := h.stands.linked
      detached := h.stands.detached
      apart := h.stands.apart
      retired := h.stands.retired }

end Forest

theorem Edit.register_eq (symbol : Char) (f : Forest) : register symbol f =
    .ok (.ofSymbol symbol) { f with registry := f.registry.register symbol } := rfl

/-- An algebra that builds a cell at each step, of which variables enter the registry first. -/
structure Algebra.Builds {ν : Type} (alg : Algebra Edit ν Nat) (key : ν → Key)
    (enter : Registry → ν → Registry) : Prop where
  number : alg.number = Edit.number
  var : ∀ n f, alg.var n f = Edit.var (key n) { f with registry := enter f.registry n }
  unary : alg.unary = Edit.applyUnary
  binary : alg.binary = Edit.applyBinary

namespace Edit

/-- Enters a symbol, if there is one. -/
def enter? (r : Registry) : Option Char × Key → Registry
  | (some symbol, _) => r.register symbol
  | (none, _) => r

theorem copying_builds : copying.Builds id fun r _ => r :=
  ⟨rfl, fun _ _ => rfl, rfl, rfl⟩

theorem planting_builds : planting.Builds Key.ofSymbol Registry.register :=
  ⟨rfl, fun _ _ => rfl, rfl, rfl⟩

theorem grafting_builds : grafting.Builds (·.2) enter? := by
  refine ⟨rfl, ?_, rfl, rfl⟩
  rintro ⟨symbol?, key⟩ f
  cases symbol? <;> rfl

end Edit

/-! ### One cell for each node -/

/-- A success adds `n` cells and retires none. -/
def Edit.Adds (x : Edit Nat) (n : Nat) : Prop :=
  ∀ f i g, x f = .ok i g → g.size = f.size + n ∧ g.retired = f.retired

namespace Edit

theorem eq_of_require {check : Forest → Option Fault} {f g : Forest} {u : Unit}
    (h : require check f = .ok u g) : g = f := by
  unfold require at h
  split at h <;> cases h
  rfl

theorem allocate_adds (c : Cell) : (allocate c).Adds 1 := by
  rintro f i g ⟨⟩
  exact ⟨Forest.size_push f c, rfl⟩

theorem applyUnary_adds (op : Unary) (a : Nat) : (applyUnary op a).Adds 1 := by
  intro f i g h
  obtain ⟨_, f₁, required, h⟩ := bind_eq_ok h
  rw [eq_of_require required] at h
  cases h
  exact ⟨Forest.size_push f _, rfl⟩

theorem applyBinary_adds (op : Binary) (a b : Nat) : (applyBinary op a b).Adds 1 := by
  intro f i g h
  obtain ⟨_, f₁, left, h⟩ := bind_eq_ok h
  rw [eq_of_require left] at h
  obtain ⟨_, f₂, right, h⟩ := bind_eq_ok h
  rw [eq_of_require right] at h
  split at h
  · cases h
  · cases h
    exact ⟨Forest.size_push f _, rfl⟩

/-- Recursion on a term adds a cell for each of its nodes. -/
theorem foldM_adds {ν : Type} {alg : Algebra Edit ν Nat} {key : ν → Key}
    {enter : Registry → ν → Registry} (builds : alg.Builds key enter) (t : Term ν) :
    (t.foldM alg : Edit Nat).Adds t.size := by
  induction t with
  | number x =>
    rw [Term.foldM, builds.number]
    exact allocate_adds _
  | var n =>
    intro f i g h
    rw [Term.foldM, builds.var] at h
    exact allocate_adds (.var (key n)) { f with registry := enter f.registry n } i g h
  | unary op t ih =>
    intro f i g h
    obtain ⟨a, f₁, operand, h⟩ := bind_eq_ok h
    rw [builds.unary] at h
    obtain ⟨size₁, retired₁⟩ := ih f a f₁ operand
    obtain ⟨size, retired⟩ := applyUnary_adds op a f₁ i g h
    exact ⟨by rw [size, size₁, Term.size, Nat.add_assoc], retired.trans retired₁⟩
  | binary op s t ihs iht =>
    intro f i g h
    obtain ⟨a, f₁, left, h⟩ := bind_eq_ok h
    obtain ⟨b, f₂, right, h⟩ := bind_eq_ok h
    rw [builds.binary] at h
    obtain ⟨size₁, retired₁⟩ := ihs f a f₁ left
    obtain ⟨size₂, retired₂⟩ := iht f₁ b f₂ right
    obtain ⟨size, retired⟩ := applyBinary_adds op a b f₂ i g h
    refine ⟨?_, retired.trans (retired₂.trans retired₁)⟩
    rw [size, size₂, size₁, Term.size]
    omega

end Edit

/-- The tree of the term whose cells stand in postorder, of which the first is `n`. -/
def Term.laid (n : Nat) : Term Key → Tree
  | number x => .number n x
  | var key => .var n key
  | unary op t => .unary (n + t.size) op (t.laid n)
  | binary op s t => .binary (n + s.size + t.size) op (s.laid n) (t.laid (n + s.size))

theorem Term.term_laid (t : Term Key) (n : Nat) : (t.laid n).term = t := by
  induction t generalizing n with
  | number x => rfl
  | var key => rfl
  | unary op t ih => rw [laid, Tree.term, ih]
  | binary op s t ihs iht => rw [laid, Tree.term, ihs, iht]

namespace Forest

namespace Holds

variable {ν : Type} {alg : Algebra Edit ν Nat} {key : ν → Key}
  {enter : Registry → ν → Registry} {f : Forest} {m : Mark} {live : Option Tree}
  {ts : List Tree}

theorem alg_var (h : f.Holds m live ts) (builds : alg.Builds key enter) (n : ν) :
    ∃ g, alg.var n f = .ok f.size g ∧
      g.Holds ⟨enter m.registry n, m.past⟩ live (.var f.size (key n) :: ts) := by
  obtain ⟨g, hg, held⟩ := (h.reregister (enter m.registry n)).var (key n)
  refine ⟨g, ?_, held⟩
  rw [builds.var, h.stands.registry]
  exact hg

/-- Recursion on a term builds a tree of the term, of new cells in postorder. -/
theorem foldM_laid (h : f.Holds m live ts) (builds : alg.Builds key enter) (t : Term ν) :
    ∃ g : Forest, t.foldM alg f = .ok ((t.map key).laid f.size).top g ∧
      g.Holds ⟨t.names.foldl enter m.registry, m.past⟩ live ((t.map key).laid f.size :: ts) := by
  induction t generalizing f m ts with
  | number x =>
    obtain ⟨g, hg, held⟩ := h.number x
    refine ⟨g, ?_, held⟩
    rw [Term.foldM, builds.number]
    exact hg
  | var n =>
    obtain ⟨g, hg, held⟩ := h.alg_var builds n
    exact ⟨g, hg, held⟩
  | unary op t ih =>
    obtain ⟨f₁, h₁, held⟩ := ih h
    have size : f₁.size = f.size + t.size := (Edit.foldM_adds builds t f _ f₁ h₁).1
    obtain ⟨g, hg, held⟩ := held.applyUnary op
    rw [size] at hg held
    refine ⟨g, ?_, ?_⟩
    · rw [Term.foldM, bind_ok h₁, builds.unary, Term.map, Term.laid, Term.size_map]
      exact hg
    · rw [Term.map, Term.laid, Term.size_map]
      exact held
  | binary op s t ihs iht =>
    obtain ⟨f₁, h₁, held⟩ := ihs h
    have sizeLeft : f₁.size = f.size + s.size := (Edit.foldM_adds builds s f _ f₁ h₁).1
    obtain ⟨f₂, h₂, held⟩ := iht held
    have size : f₂.size = f₁.size + t.size := (Edit.foldM_adds builds t f₁ _ f₂ h₂).1
    obtain ⟨g, hg, held⟩ := (held.perm (.swap ((s.map key).laid f.size) _ ts)).applyBinary op
    rw [size, sizeLeft] at hg held
    refine ⟨g, ?_, ?_⟩
    · rw [Term.foldM, bind_ok h₁, bind_ok h₂, builds.binary, sizeLeft, Term.map, Term.laid,
        Term.size_map, Term.size_map]
      exact hg
    · rw [Term.map, Term.laid, Term.size_map, Term.size_map, Term.names, List.foldl_append]
      exact held

/-- Recursion on a term builds a tree of the term. -/
theorem foldM (h : f.Holds m live ts) (builds : alg.Builds key enter) (t : Term ν) :
    ∃ (u : Tree) (g : Forest), t.foldM alg f = .ok u.top g ∧ u.term = t.map key ∧
      g.Holds ⟨t.names.foldl enter m.registry, m.past⟩ live (u :: ts) := by
  obtain ⟨g, hg, held⟩ := h.foldM_laid builds t
  exact ⟨_, g, hg, Term.term_laid _ _, held⟩

/-- A single step goes on from the trees on the stack, or finds too few of them. -/
theorem step {us : List Tree} (h : f.Holds m live (us ++ ts)) (builds : alg.Builds key enter)
    (s : Step ν) :
    (∃ vs g m', alg.step (us.map Tree.top) s f = .ok (vs.map Tree.top) g ∧
      m'.past = m.past ∧ g.Holds m' live (vs ++ ts)) ∨
    alg.step (us.map Tree.top) s f = .error .missingNode f := by
  cases s with
  | number x =>
    obtain ⟨g, hg, held⟩ := h.number x
    refine Or.inl ⟨.number f.size x :: us, g, m, ?_, rfl, held⟩
    rw [Algebra.step, builds.number, bind_ok hg]
    rfl
  | var n =>
    obtain ⟨g, hg, held⟩ := h.alg_var builds n
    refine Or.inl ⟨.var f.size (key n) :: us, g, ⟨enter m.registry n, m.past⟩, ?_, rfl, held⟩
    rw [Algebra.step, bind_ok hg]
    rfl
  | unary op =>
    cases us with
    | nil => exact Or.inr rfl
    | cons u us =>
      obtain ⟨g, hg, held⟩ := h.applyUnary op
      refine Or.inl ⟨.unary f.size op u :: us, g, m, ?_, rfl, held⟩
      rw [List.map_cons, Algebra.step, builds.unary, bind_ok hg]
      rfl
  | binary op =>
    cases us with
    | nil => exact Or.inr rfl
    | cons v us =>
      cases us with
      | nil => exact Or.inr rfl
      | cons u us =>
        obtain ⟨g, hg, held⟩ := (h.perm (.swap u v (us ++ ts))).applyBinary op
        refine Or.inl ⟨.binary f.size op u v :: us, g, m, ?_, rfl, held⟩
        rw [List.map_cons, List.map_cons, Algebra.step, builds.binary, bind_ok hg]
        rfl

theorem steps {us : List Tree} (h : f.Holds m live (us ++ ts))
    (builds : alg.Builds key enter) (ss : List (Step ν)) :
    (∃ vs g m', ss.foldlM alg.step (us.map Tree.top) f = .ok (vs.map Tree.top) g ∧
      m'.past = m.past ∧ g.Holds m' live (vs ++ ts)) ∨
    ∃ g m', ss.foldlM alg.step (us.map Tree.top) f = .error .missingNode g ∧
      m'.past = m.past ∧ g.Holds m' live ts := by
  induction ss generalizing f m us with
  | nil => exact Or.inl ⟨us, f, m, rfl, rfl, h⟩
  | cons s ss ih =>
    rcases h.step builds s with ⟨vs, g, m', hg, past, held⟩ | failed
    · have := ih held
      rw [List.foldlM_cons, bind_ok hg, ← past]
      exact this
    · refine Or.inr ⟨f, m, ?_, rfl, h.forget⟩
      rw [List.foldlM_cons, bind_error failed]

/-- A copy of an expression that fits is made by recursion on its term. -/
theorem copy_eq {s : Tree} (fits : s.Fits f.cells) :
    Edit.copy s.top f = s.term.foldM Edit.copying f := by
  have present : f.absent? s.top = none := if_pos fits.top_lt
  rw [Edit.copy, bind_ok (Edit.require_ok present)]
  change Edit.copying.run (f.program s.top) f = _
  rw [program_eq fits, Algebra.run_program]

theorem copy {s : Tree} (h : f.Holds m live ts) (fits : s.Fits f.cells) :
    ∃ (u : Tree) (g : Forest), Edit.copy s.top f = .ok u.top g ∧ u.term = s.term ∧
      g.Holds m live (u :: ts) := by
  obtain ⟨u, g, hg, term, held⟩ := h.foldM Edit.copying_builds s.term
  rw [List.foldl_fixed] at held
  rw [Term.map_id] at term
  exact ⟨u, g, (copy_eq fits).trans hg, term, held⟩

/-- A term is planted as the live expression of a forest that has none. -/
theorem plantRoot_laid (h : f.Holds m none []) (t : Term Char) :
    ∃ g : Forest, (do Edit.setRoot (← Edit.plant t) : Edit Unit) f = .ok () g ∧
      g.Holds ⟨t.names.foldl Registry.register m.registry, m.past⟩
        (some ((t.map Key.ofSymbol).laid f.size)) [] := by
  obtain ⟨f₁, h₁, held⟩ := h.foldM_laid Edit.planting_builds t
  obtain ⟨g, hg, held⟩ := held.setRoot
  have planted : Edit.plant t f = .ok ((t.map Key.ofSymbol).laid f.size).top f₁ := by
    rw [Edit.plant, Algebra.run_program]
    exact h₁
  exact ⟨g, (bind_ok planted).trans hg, held⟩

theorem plantRoot (h : f.Holds m none []) (t : Term Char) :
    ∃ (u : Tree) (g : Forest),
      (do Edit.setRoot (← Edit.plant t) : Edit Unit) f = .ok () g ∧
      u.term = t.map Key.ofSymbol ∧
      g.Holds ⟨t.names.foldl Registry.register m.registry, m.past⟩ (some u) [] := by
  obtain ⟨g, hg, held⟩ := h.plantRoot_laid t
  exact ⟨_, g, hg, Term.term_laid _ _, held⟩

end Holds

end Forest

/-! ### Any program -/

/-- The edit builds one more tree, or it fails; the trees that stand stay as they are. -/
def Edit.Grows (x : Edit Nat) : Prop :=
  ∀ {f : Forest} {m : Mark} {live : Option Tree} {ts : List Tree}, f.Holds m live ts →
    (∃ (u : Tree) (g : Forest) (m' : Mark), x f = .ok u.top g ∧ m'.past = m.past ∧
      g.Holds m' live (u :: ts)) ∨
    ∃ (e : Fault) (g : Forest) (m' : Mark), x f = .error e g ∧ m'.past = m.past ∧
      g.Holds m' live ts

theorem Algebra.Builds.run_grows {ν : Type} {alg : Algebra Edit ν Nat} {key : ν → Key}
    {enter : Registry → ν → Registry} (builds : alg.Builds key enter) (ss : List (Step ν)) :
    (alg.run ss).Grows := by
  intro f m live ts h
  have start : f.Holds m live ([] ++ ts) := h
  rcases start.steps builds ss with ⟨vs, g, m', hg, past, held⟩ | ⟨g, m', failed, kept⟩
  · cases vs with
    | nil =>
      refine Or.inr ⟨.missingNode, g, m', ?_, past, held⟩
      rw [Algebra.run]
      exact bind_ok hg
    | cons u vs =>
      refine Or.inl ⟨u, g, m', ?_, past, (held.perm List.perm_middle.symm).forget⟩
      rw [Algebra.run]
      exact bind_ok hg
  · refine Or.inr ⟨.missingNode, g, m', ?_, kept⟩
    rw [Algebra.run]
    exact bind_error failed

namespace Edit

theorem copy_grows (i : Nat) : (copy i).Grows := by
  intro f m live ts h
  cases absent : f.absent? i with
  | some e => exact Or.inr ⟨e, f, m, bind_error (require_error absent), rfl, h⟩
  | none =>
    rw [copy, bind_ok (require_ok absent)]
    exact copying_builds.run_grows (f.program i) h

theorem graft_grows (other : Forest) (i : Nat) : (graft other i).Grows := by
  intro f m live ts h
  rw [graft]
  cases absent : other.absent? i with
  | some e => exact Or.inr ⟨e, f, m, rfl, rfl, h⟩
  | none => exact grafting_builds.run_grows _ h

end Edit

/-! ### The forest of a term -/

namespace Forest

theorem empty_holds : empty.Holds ⟨{}, 0⟩ none [] where
  root := rfl
  stands := by
    refine ⟨rfl, rfl, ?_, ?_, ?_, List.nodup_nil, ?_⟩
    all_goals simp [empty]

theorem ofTerm_ok (t : Term Char) :
    ∃ (u : Tree) (f : Forest), ofTerm t = .ok f ∧ u.term = t.map Key.ofSymbol ∧
      f.Holds ⟨t.names.foldl Registry.register {}, 0⟩ (some u) [] := by
  obtain ⟨u, f, hf, term, held⟩ := empty_holds.plantRoot t
  refine ⟨u, f, ?_, term, held⟩
  rw [ofTerm, hf]

theorem holds_of_ofTerm {t : Term Char} (h : ofTerm t = .ok f) :
    ∃ u, u.term = t.map Key.ofSymbol ∧ f.Holds ⟨f.registry, 0⟩ (some u) [] := by
  obtain ⟨u, f', h', term, held⟩ := ofTerm_ok t
  rw [h] at h'
  cases h'
  rw [held.stands.registry]
  exact ⟨u, term, held⟩

end Forest

end Fluxion
