import Fluxion.Proofs.Arithmetic.Equality
import Fluxion.Proofs.Forest.Agreement
import Fluxion.Proofs.Forest.Collection
import Fluxion.Proofs.Forest.Duplicates
import Fluxion.Proofs.Simplification.Counting
import Fluxion.Proofs.Worklist

/-!
# Equivalence of forests

Whether the live expressions are the same terms is decided by a loop over pairs of nodes. It breaks
off at the first pair that differs. Numbers are compared as such, so NaN makes an expression
differ from itself.
-/

namespace Fluxion

/-! ### Terms that are alike -/

namespace Term

/-- Node by node the same, with equal numbers. -/
inductive Alike : Term Key → Term Key → Prop where
  | number {x y : Float} (equal : (x == y) = true) : Alike (.number x) (.number y)
  | var (key : Key) : Alike (.var key) (.var key)
  | unary (op : Unary) {s t : Term Key} (operand : Alike s t) :
      Alike (.unary op s) (.unary op t)
  | binary (op : Binary) {s s' t t' : Term Key} (left : Alike s s') (right : Alike t t') :
      Alike (.binary op s t) (.binary op s' t')

variable {s t u : Term Key}

theorem Alike.agrees (h : s.Alike t) : s.agrees t = true := by
  induction h with
  | number equal => exact equal
  | var key => exact beq_self_eq_true key
  | unary op _ ih => simp [Term.agrees, ih]
  | binary op _ _ ihs iht => simp [Term.agrees, ihs, iht]

theorem alike_of_agrees (h : s.agrees t = true) : s.Alike t := by
  induction s generalizing t with
  | number x =>
    cases t with
    | number y => exact .number h
    | var k => cases h
    | unary op t => cases h
    | binary op t t' => cases h
  | var k =>
    cases t with
    | var l =>
      cases eq_of_beq h
      exact .var k
    | number y => cases h
    | unary op t => cases h
    | binary op t t' => cases h
  | unary op s ih =>
    cases t with
    | unary op' t =>
      simp only [agrees, Bool.and_eq_true, decide_eq_true_eq] at h
      obtain ⟨rfl, operand⟩ := h
      exact .unary op (ih operand)
    | number y => cases h
    | var k => cases h
    | binary op' t t' => cases h
  | binary op s s' ihs ihs' =>
    cases t with
    | binary op' t t' =>
      simp only [agrees, Bool.and_eq_true, decide_eq_true_eq] at h
      obtain ⟨⟨rfl, left⟩, right⟩ := h
      exact .binary op (ihs left) (ihs' right)
    | number y => cases h
    | var k => cases h
    | unary op' t => cases h

theorem agrees_iff : s.agrees t = true ↔ s.Alike t :=
  ⟨alike_of_agrees, Alike.agrees⟩

theorem Alike.symm (h : s.Alike t) : t.Alike s := by
  induction h with
  | number equal => exact .number (beq_symm_of_float equal)
  | var key => exact .var key
  | unary op _ ih => exact .unary op ih
  | binary op _ _ ihs iht => exact .binary op ihs iht

theorem Alike.trans (h : s.Alike t) (h' : t.Alike u) : s.Alike u := by
  induction h generalizing u with
  | number equal =>
    cases h' with
    | number equal' => exact .number (beq_trans_of_float equal equal')
  | var key => exact h'
  | unary op _ ih =>
    cases h' with
    | unary _ operand => exact .unary op (ih operand)
  | binary op _ _ ihs iht =>
    cases h' with
    | binary _ left right => exact .binary op (ihs left) (iht right)

/-- Only NaN differs from itself. -/
theorem alike_self_iff : t.Alike t ↔ ∀ x ∈ t.numbers, x.isNaN = false := by
  induction t with
  | number x =>
    rw [numbers, List.forall_mem_singleton, ← beq_self_iff]
    constructor
    · rintro ⟨equal⟩
      exact equal
    · exact .number
  | var key => exact iff_of_true (.var key) (by simp [numbers])
  | unary op t ih =>
    rw [numbers, ← ih]
    constructor
    · rintro ⟨⟩
      assumption
    · exact .unary op
  | binary op s t ihs iht =>
    rw [numbers, List.forall_mem_append, ← ihs, ← iht]
    constructor
    · rintro ⟨⟩
      exact ⟨by assumption, by assumption⟩
    · rintro ⟨right, left⟩
      exact .binary op left right

end Term

/-! ### The loop -/

/-- Cells that differ end the comparison. The operands of the others are to be compared. -/
def Cell.compared : Cell → Cell → Move (Nat × Nat)
  | number x, number y => if x == y then .put [] else .stop
  | var k, var l => if k = l then .put [] else .stop
  | unary o a, unary p b => if o = p then .put [(a, b)] else .stop
  | binary o a b, binary p c d => if o = p then .put [(a, c), (b, d)] else .stop
  | _, _ => .stop

def Forest.comparing (cs ds : Array Cell) : Nat × Nat → Option (Move (Nat × Nat))
  | (i, j) => do return (← cs[i]?).compared (← ds[j]?)

namespace Tree.Fits

variable {cs ds : Array Cell} {s t : Tree}

theorem comparing_eq (hs : s.Fits cs) (ht : t.Fits ds) :
    Forest.comparing cs ds (s.top, t.top) = some (s.cell.compared t.cell) := by
  rw [Forest.comparing, hs.cell, ht.cell]
  rfl

/-- The loop comes to the end of its stack if the terms agree, and breaks off if they do not. -/
theorem compares (hs : s.Fits cs) (ht : t.Fits ds) : ∃ taken,
    Finishes (Forest.comparing cs ds) [(s.top, t.top)] taken (s.term.agrees t.term) := by
  induction s generalizing t with
  | number i x =>
    cases t with
    | number j y =>
      have next := hs.comparing_eq ht
      rw [Tree.term, Tree.term, Term.agrees]
      cases equal : x == y with
      | true =>
        simp only [Tree.cell, Cell.compared, equal, if_true] at next
        exact ⟨_, .put next .empty⟩
      | false =>
        simp only [Tree.cell, Cell.compared, equal, Bool.false_eq_true, if_false] at next
        exact ⟨_, .stop next⟩
    | var j l => exact ⟨_, .stop (hs.comparing_eq ht)⟩
    | unary j op t => exact ⟨_, .stop (hs.comparing_eq ht)⟩
    | binary j op t t' => exact ⟨_, .stop (hs.comparing_eq ht)⟩
  | var i k =>
    cases t with
    | var j l =>
      have next := hs.comparing_eq ht
      rw [Tree.term, Tree.term, Term.agrees]
      by_cases same : k = l
      · simp only [Tree.cell, Cell.compared, same, if_true] at next
        simp only [same, beq_self_eq_true]
        exact ⟨_, .put next .empty⟩
      · simp only [Tree.cell, Cell.compared, same, if_false] at next
        rw [beq_eq_false_iff_ne.mpr same]
        exact ⟨_, .stop next⟩
    | number j y => exact ⟨_, .stop (hs.comparing_eq ht)⟩
    | unary j op t => exact ⟨_, .stop (hs.comparing_eq ht)⟩
    | binary j op t t' => exact ⟨_, .stop (hs.comparing_eq ht)⟩
  | unary i op s ih =>
    cases t with
    | unary j op' t =>
      have next := hs.comparing_eq ht
      rw [Tree.term, Tree.term, Term.agrees]
      by_cases same : op = op'
      · simp only [Tree.cell, Cell.compared, same, if_true] at next
        simp only [same, decide_true, Bool.true_and]
        obtain ⟨taken, run⟩ := ih hs.2 ht.2
        exact ⟨_, .put next run⟩
      · simp only [Tree.cell, Cell.compared, same, if_false] at next
        simp only [same, decide_false, Bool.false_and]
        exact ⟨_, .stop next⟩
    | number j y => exact ⟨_, .stop (hs.comparing_eq ht)⟩
    | var j l => exact ⟨_, .stop (hs.comparing_eq ht)⟩
    | binary j op' t t' => exact ⟨_, .stop (hs.comparing_eq ht)⟩
  | binary i op s s' ih ih' =>
    cases t with
    | binary j op' t t' =>
      have next := hs.comparing_eq ht
      rw [Tree.term, Tree.term, Term.agrees]
      by_cases same : op = op'
      · simp only [Tree.cell, Cell.compared, same, if_true] at next
        simp only [same, decide_true, Bool.true_and]
        obtain ⟨taken, left⟩ := ih hs.2.1 ht.2.1
        obtain ⟨taken', right⟩ := ih' hs.2.2 ht.2.2
        cases agree : s.term.agrees t.term with
        | true =>
          rw [agree] at left
          exact ⟨_, .put next (left.append right)⟩
        | false =>
          -- the pair of right operands is left on the stack
          rw [agree] at left
          exact ⟨_, .put next (left.append_of_stopped [(s'.top, t'.top)])⟩
      · simp only [Tree.cell, Cell.compared, same, if_false] at next
        simp only [same, decide_false, Bool.false_and]
        exact ⟨_, .stop next⟩
    | number j y => exact ⟨_, .stop (hs.comparing_eq ht)⟩
    | var j l => exact ⟨_, .stop (hs.comparing_eq ht)⟩
    | unary j op' t => exact ⟨_, .stop (hs.comparing_eq ht)⟩

end Tree.Fits

/-! ### Live expressions -/

/-- A number of a term is that of a node. -/
theorem Tree.Fits.mem_numbers {f : Forest} {t : Tree} (h : t.Fits f.cells) {x : Float} :
    x ∈ t.term.numbers ↔ ∃ i ∈ t.nodes, f.cells[i]? = some (.number x) := by
  have number (i : Nat) : f.number? i = some x ↔ f.cells[i]? = some (.number x) := by
    rw [Forest.number?]
    split
    · next hc => simp [hc]
    · next hc => exact iff_of_false (Option.some_ne_none x).symm (hc x)
  simp [← h.numbers, t.descendants_perm.mem_iff, number]

namespace Forest

variable {f g h : Forest} {l u : Tree} {r : Nat}

/-- The term of the live expression. -/
def liveTerm? (f : Forest) : Option (Term Key) := f.root.bind f.term?

/-- No live node holds NaN. -/
def NaNFree (f : Forest) : Prop :=
  ∀ i x, f.Live i → f.cells[i]? = some (.number x) → x.isNaN = false

theorem liveTerm?_eq (fits : l.Fits f.cells) (root : f.root = some l.top) :
    f.liveTerm? = some l.term := by
  rw [liveTerm?, root, Option.bind_some, term?_eq fits]

theorem Acyclic.exists_live (h : f.Acyclic) (root : f.root = some r) :
    ∃ l : Tree, f.root = some l.top ∧ l.Fits f.cells := by
  obtain ⟨l, rfl, fits⟩ := h.exists_tree ⟨r, root, .refl⟩
  exact ⟨l, root, fits⟩

theorem Acyclic.liveTerm?_eq_none_iff (h : f.Acyclic) : f.liveTerm? = none ↔ f.root = none := by
  constructor
  · intro termless
    cases root : f.root with
    | none => rfl
    | some r =>
      obtain ⟨l, root, fits⟩ := h.exists_live root
      cases termless.symm.trans (liveTerm?_eq fits root)
  · intro rootless
    rw [liveTerm?, rootless, Option.bind_none]

/-- Which forests are equivalent depends on their live terms alone. -/
theorem equivalent_iff (hf : f.Acyclic) (hg : g.Acyclic) : f.equivalent g = true ↔
    f.liveTerm? = none ∧ g.liveTerm? = none ∨
      ∃ s t, f.liveTerm? = some s ∧ g.liveTerm? = some t ∧ s.Alike t := by
  cases left : f.root with
  | none =>
    have termless := hf.liveTerm?_eq_none_iff.mpr left
    rw [termless, hg.liveTerm?_eq_none_iff, equivalent, left]
    cases g.root with
    | none => simp
    | some r => simp
  | some i =>
    obtain ⟨l, root, fits⟩ := hf.exists_live left
    cases right : g.root with
    | none =>
      rw [hg.liveTerm?_eq_none_iff.mpr right, equivalent, left, right]
      simp [liveTerm?_eq fits root]
    | some j =>
      obtain ⟨u, root', fits'⟩ := hg.exists_live right
      rw [equivalent_eq fits fits' root root', Term.agrees_iff, liveTerm?_eq fits root,
        liveTerm?_eq fits' root']
      simp

theorem nanFree_iff (fits : l.Fits f.cells) (root : f.root = some l.top) :
    f.NaNFree ↔ ∀ x ∈ l.term.numbers, x.isNaN = false := by
  constructor
  · intro free x hx
    obtain ⟨i, hi, hc⟩ := fits.mem_numbers.mp hx
    exact free i x ((live_iff_of_fits fits root).mpr hi) hc
  · intro free i x live hc
    exact free x (fits.mem_numbers.mpr ⟨i, (live_iff_of_fits fits root).mp live, hc⟩)

/-! ### Laws -/

/-- The loop ends with the answer, without having looked for a cell that is not there. -/
theorem finishes_iff_equivalent {i j : Nat} {answer : Bool} (hf : f.Acyclic) (hg : g.Acyclic)
    (left : f.root = some i) (right : g.root = some j) :
    (∃ taken, Finishes (comparing f.cells g.cells) [(i, j)] taken answer) ↔
      f.equivalent g = answer := by
  obtain ⟨s, root, fits⟩ := hf.exists_live left
  obtain ⟨t, root', fits'⟩ := hg.exists_live right
  cases left.symm.trans root
  cases right.symm.trans root'
  rw [equivalent_eq fits fits' root root']
  obtain ⟨taken, run⟩ := fits.compares fits'
  constructor
  · rintro ⟨taken', run'⟩
    exact (run.unique run').2
  · rintro rfl
    exact ⟨taken, run⟩

theorem equivalent_comm (hf : f.Acyclic) (hg : g.Acyclic) : g.equivalent f = f.equivalent g := by
  rw [Bool.eq_iff_iff, equivalent_iff hg hf, equivalent_iff hf hg]
  constructor
  · rintro (⟨right, left⟩ | ⟨t, s, right, left, alike⟩)
    · exact Or.inl ⟨left, right⟩
    · exact Or.inr ⟨s, t, left, right, alike.symm⟩
  · rintro (⟨left, right⟩ | ⟨s, t, left, right, alike⟩)
    · exact Or.inl ⟨right, left⟩
    · exact Or.inr ⟨t, s, right, left, alike.symm⟩

theorem equivalent_trans (hf : f.Acyclic) (hg : g.Acyclic) (hh : h.Acyclic)
    (first : f.equivalent g = true) (second : g.equivalent h = true) :
    f.equivalent h = true := by
  rw [equivalent_iff hf hg] at first
  rw [equivalent_iff hg hh] at second
  rw [equivalent_iff hf hh]
  rcases first with ⟨left, middle⟩ | ⟨s, t, left, middle, alike⟩
  · rcases second with ⟨-, right⟩ | ⟨t', u, middle', -, -⟩
    · exact Or.inl ⟨left, right⟩
    · cases middle.symm.trans middle'
  · rcases second with ⟨middle', -⟩ | ⟨t', u, middle', right, alike'⟩
    · cases middle.symm.trans middle'
    · cases middle.symm.trans middle'
      exact Or.inr ⟨s, u, left, right, alike.trans alike'⟩

theorem equivalent_self_iff (hf : f.Acyclic) : f.equivalent f = true ↔ f.NaNFree := by
  cases root : f.root with
  | none =>
    refine iff_of_true (by rw [equivalent, root]) ?_
    rintro i x ⟨r, hr, -⟩
    cases root.symm.trans hr
  | some r =>
    obtain ⟨l, root, fits⟩ := hf.exists_live root
    rw [equivalent_eq fits fits root root, Term.agrees_iff, Term.alike_self_iff,
      nanFree_iff fits root]

namespace NaNFree

/-- In `g` the live term is the same, and `f` does not hold NaN. -/
theorem of_term (free : f.NaNFree) (fits : l.Fits f.cells) (root : f.root = some l.top)
    (fits' : u.Fits g.cells) (root' : g.root = some u.top) (term : u.term = l.term) :
    f.equivalent g = true ∧ g.NaNFree := by
  rw [nanFree_iff fits root] at free
  rw [equivalent_eq fits fits' root root', nanFree_iff fits' root', term, Term.agrees_iff]
  exact ⟨Term.alike_self_iff.mpr free, free⟩

theorem compact (free : f.NaNFree) (hf : f.Acyclic) :
    f.equivalent f.compact = true ∧ f.compact.NaNFree := by
  cases root : f.root with
  | none =>
    have rootless : f.compact.root = none := by rw [compact_of_rootless root]
    refine ⟨by rw [equivalent, root, rootless], ?_⟩
    rintro i x ⟨r, hr, -⟩
    cases rootless.symm.trans hr
  | some r =>
    obtain ⟨l, root, fits⟩ := hf.exists_live root
    refine free.of_term fits root (fits_compact fits root fits l.top_mem_nodes) ?_
      (l.term_renumber _)
    rw [root_compact root, top_renumber_preorder fits]

/-- A duplicate of the live expression is made the root. -/
theorem duplicate {d : Nat} (free : f.NaNFree) (fits : l.Fits f.cells)
    (root : f.root = some l.top) (made : h.Duplicate l.term d g) :
    ∃ k, Edit.setRoot d g = .ok () k ∧ f.equivalent k = true ∧ k.NaNFree := by
  obtain ⟨u, rfl, term, fits'⟩ := exists_fits_of_term? made.term
  exact ⟨_, setRoot_ok fits'.top_lt made.detached, free.of_term fits root fits' rfl term⟩

end NaNFree

/-- Equivalence decides whether the live expressions are alike, and looks at nothing else. As far
as NaN is not in play it is an equivalence relation, and compaction, copies and grafts keep to
it. -/
theorem equivalent_decides (hf : f.Acyclic) (hg : g.Acyclic) :
    (∀ i j, f.root = some i → g.root = some j → ∀ answer,
      (∃ taken, Finishes (comparing f.cells g.cells) [(i, j)] taken answer) ↔
        f.equivalent g = answer) ∧
    (f.equivalent g = true ↔ f.root = none ∧ g.root = none ∨
      ∃ s t, f.liveTerm? = some s ∧ g.liveTerm? = some t ∧ s.Alike t) ∧
    (∀ f' g' : Forest, f'.Acyclic → g'.Acyclic → f'.liveTerm? = f.liveTerm? →
      g'.liveTerm? = g.liveTerm? → f'.equivalent g' = f.equivalent g) ∧
    g.equivalent f = f.equivalent g ∧
    (∀ h : Forest, h.Acyclic → f.equivalent g = true → g.equivalent h = true →
      f.equivalent h = true) ∧
    (f.equivalent f = true ↔ f.NaNFree) ∧
    (f.NaNFree → (f.equivalent f.compact = true ∧ f.compact.NaNFree) ∧
      ∀ r, f.root = some r →
        (f.Sized → ∃ k, (do Edit.setRoot (← Edit.copy r) : Edit Unit) f = .ok () k ∧
          f.equivalent k = true ∧ k.NaNFree) ∧
        ∀ h : Forest, h.Sized →
          ∃ k, (do Edit.setRoot (← Edit.graft f r) : Edit Unit) h = .ok () k ∧
            f.equivalent k = true ∧ k.NaNFree) := by
  refine ⟨fun i j left right answer => finishes_iff_equivalent hf hg left right, ?_, ?_,
    equivalent_comm hf hg, fun h hh => equivalent_trans hf hg hh, equivalent_self_iff hf, ?_⟩
  · rw [equivalent_iff hf hg, hf.liveTerm?_eq_none_iff, hg.liveTerm?_eq_none_iff]
  · intro f' g' hf' hg' left right
    rw [Bool.eq_iff_iff, equivalent_iff hf' hg', equivalent_iff hf hg, left, right]
  · intro free
    refine ⟨free.compact hf, ?_⟩
    intro r hr
    obtain ⟨l, root, fits⟩ := hf.exists_live hr
    cases hr.symm.trans root
    constructor
    · intro base
      obtain ⟨d, g, hg, made, -⟩ := base.copy_ok fits
      obtain ⟨k, hk, same⟩ := free.duplicate fits root made
      exact ⟨k, (bind_ok hg).trans hk, same⟩
    · intro h base
      obtain ⟨d, g, hg, made, -⟩ := base.graft_ok fits
      obtain ⟨k, hk, same⟩ := free.duplicate fits root made
      exact ⟨k, (bind_ok hg).trans hk, same⟩

/-- The forest of `(x - 1) * (x - 1)`, in which no node is shared. -/
def separateFactors : Forest where
  cells := #[.var (.ofSymbol 'x'), .number 1, .binary .sub 0 1, .var (.ofSymbol 'x'), .number 1,
    .binary .sub 3 4, .binary .mul 2 5]
  parents := #[some 2, some 2, some 6, some 5, some 5, some 6, none]
  root := some 6

/-- The forest of `x + NaN`, with a one that is not live. -/
def shiftedByNaN : Forest where
  cells := #[.number 1, .number (0 / 0), .var (.ofSymbol 'x'), .binary .add 2 1]
  parents := #[none, some 3, some 3, none]
  root := some 3

/-- It is not seen whether factors are shared. -/
theorem equivalent_decides_sharedFactor :
    let f := sharedFactor
    let g := separateFactors
    (f.Acyclic ∧ g.Acyclic ∧ shiftedByNaN.Acyclic) ∧
      (∃ taken, Finishes (comparing f.cells g.cells) [(5, 6)] taken true) ∧
      g.equivalent f = true ∧
      (f.NaNFree ∧ f.equivalent f.compact = true ∧
        (∃ k, (do Edit.setRoot (← Edit.copy 5) : Edit Unit) f = .ok () k ∧
          f.equivalent k = true) ∧
        ∃ k, (do Edit.setRoot (← Edit.graft f 5) : Edit Unit) g = .ok () k ∧
          f.equivalent k = true) ∧
      shiftedByNaN.equivalent shiftedByNaN = false ∧ ¬ shiftedByNaN.NaNFree := by
  intro f g
  have hf : f.Acyclic := acyclic_of_lt (by decide) (by rintro r ⟨⟩; decide)
  have hg : g.Acyclic := acyclic_of_lt (by decide) (by rintro r ⟨⟩; decide)
  have hn : shiftedByNaN.Acyclic := acyclic_of_lt (by decide) (by rintro r ⟨⟩; decide)
  obtain ⟨answers, -, -, comm, -, self, free⟩ := equivalent_decides hf hg
  obtain ⟨-, -, -, -, -, selfNaN, -⟩ := equivalent_decides hn hn
  have equivalent : f.equivalent g = true := by decide
  have nanFree : f.NaNFree := self.mp (by decide)
  have differs : shiftedByNaN.equivalent shiftedByNaN = false := by decide
  obtain ⟨⟨compact, -⟩, duplicates⟩ := free nanFree
  obtain ⟨copies, grafts⟩ := duplicates 5 rfl
  obtain ⟨k, hk, copied, -⟩ := copies ⟨rfl, by rintro r ⟨⟩; decide⟩
  obtain ⟨k', hk', grafted, -⟩ := grafts g ⟨rfl, by rintro r ⟨⟩; decide⟩
  refine ⟨⟨hf, hg, hn⟩, (answers 5 6 rfl rfl true).mpr equivalent, comm.trans equivalent,
    ⟨nanFree, compact, ⟨k, hk, copied⟩, k', hk', grafted⟩, differs, ?_⟩
  intro freed
  rw [selfNaN.mpr freed] at differs
  cases differs

end Forest

end Fluxion
