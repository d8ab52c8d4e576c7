import Fluxion.Proofs.Forest.Surgery
import Fluxion.Proofs.Forest.Traversal
import Fluxion.Proofs.Simplification.Term

/-!
# Passes over the live tree

The order of a pass is fixed before the pass begins, and replacements change the tree while
the order is followed. Still every node that comes next is live, its operands are reduced,
and what has become of the tree is the term after the visits so far.
-/

namespace Fluxion

open Forest

variable {σ : Type} {f g : Forest} {m : Mark} {s t : Tree} {ts : List Tree} {k : Context}
  {sink : Sink σ} {notes : σ}

/-- The number or the operand that is left in the cells. -/
def Tree.leave : Tree → Remainder → Reduct
  | _, .constant v => .number v
  | binary _ _ s _, .left => .node s.top
  | binary _ _ _ t, .right => .node t.top
  | t, _ => .node t.top

/-- Puts what a node reduces to in its place. -/
def Reduct.put (i : Nat) : Reduct → Edit Unit
  | node j => .replace i j
  | number v => do .replace i (← .number v)

def Reduct.isNumber : Reduct → Bool
  | node _ => false
  | number _ => true

theorem Forest.cell_of_number? {i : Nat} {x : Float} (h : f.number? i = some x) :
    f.cells[i]? = some (.number x) := by
  unfold number? at h
  split at h
  · next y hc =>
    cases h
    exact hc
  · cases h

theorem Tree.Fits.number?_eq (h : t.Fits f.cells) : f.number? t.top = t.term.number? := by
  simp only [Forest.number?, h.cell]
  cases t <;> rfl

variable [Elementary]

theorem Tree.Fits.reduct?_eq (h : t.Fits f.cells) :
    f.reduct? t.top = t.term.remainder?.map (Option.map t.leave) := by
  have hc := h.cell
  cases t with
  | number i x => simp only [reduct?, hc, Tree.cell, Tree.term, Term.remainder?, Except.map,
      Option.map_none]
  | var i key => simp only [reduct?, hc, Tree.cell, Tree.term, Term.remainder?, Except.map,
      Option.map_none]
  | unary i op t =>
    simp only [reduct?, hc, Tree.cell, Tree.term, Term.remainder?, h.2.number?_eq]
    cases t.term.number? with
    | none => rfl
    | some x =>
      dsimp only
      cases op.apply x <;> rfl
  | binary i op s t =>
    simp only [reduct?, hc, Tree.cell, Tree.term, Term.remainder?, h.2.1.number?_eq,
      h.2.2.number?_eq]
    have identity (e? : Option Remainder) : e?.map (.ofRemainder s.top t.top) =
        e?.map (Tree.binary i op s t).leave := by
      congr 1
      funext e
      cases e <;> rfl
    cases s.term.number? with
    | none => cases t.term.number? <;> exact congrArg Except.ok (identity _)
    | some x =>
      cases t.term.number? with
      | none => exact congrArg Except.ok (identity _)
      | some y =>
        dsimp only
        cases op.apply x y <;> rfl

namespace Forest.Holds

omit [Elementary] in
theorem put_number (held : f.Holds m (some (k.plug s)) ts) (v : Float) :
    ∃ g, (Reduct.number v).put s.top f = .ok () g ∧
      g.Holds m (some (k.plug (.number f.size v))) ts ∧ g.retired = f.retired.push s.top ∧
      g.size = f.size + 1 := by
  have beside : (f.push (.number v)).Holds m (some (k.plug s)) (.number f.size v :: ts) :=
    of_bring held.root (held.stands.push_number v)
  obtain ⟨replaced, after⟩ := beside.replace
  refine ⟨_, (bind_ok (allocate_eq f _)).trans replaced, after, rfl, ?_⟩
  rw [size_moved, size_push]

omit [Elementary] in
theorem put_node {c : Frame} (held : f.Holds m (some (k.plug (c.fill s))) ts) :
    ∃ g, (Reduct.node s.top).put c.node f = .ok () g ∧ g.Holds m (some (k.plug s)) ts ∧
      g.retired = f.retired.push c.node ∧ g.size = f.size := by
  obtain ⟨replaced, after⟩ := held.replace_operand
  exact ⟨_, replaced, after, rfl, size_moved f c.node s.top⟩

/-- What is left of a part takes its place. Its top is retired, and there is a new cell if a
number is left. -/
theorem put_leave {r : Remainder} (held : f.Holds m (some (k.plug s)) ts)
    (h : s.term.remainder? = .ok (some r)) :
    ∃ u g, (s.leave r).put s.top f = .ok () g ∧ u.term = s.term.leave r ∧
      g.Holds m (some (k.plug u)) ts ∧ g.retired = f.retired.push s.top ∧
      g.size = f.size + (if (s.leave r).isNumber then 1 else 0) := by
  cases s with
  | number i x => cases h
  | var i key => cases h
  | unary i op t =>
    obtain ⟨x, v, -, -, rfl⟩ := Term.remainder?_unary h
    obtain ⟨g, put, after, retired, size⟩ := held.put_number v
    exact ⟨_, g, put, rfl, after, retired, size⟩
  | binary i op s t =>
    cases r with
    | constant v =>
      obtain ⟨g, put, after, retired, size⟩ := held.put_number v
      exact ⟨_, g, put, rfl, after, retired, size⟩
    | left =>
      obtain ⟨g, put, after, retired, size⟩ := put_node (c := .left i op t) held
      exact ⟨s, g, put, rfl, after, retired, size⟩
    | right =>
      obtain ⟨g, put, after, retired, size⟩ := put_node (c := .right i op s) held
      exact ⟨t, g, put, rfl, after, retired, size⟩

end Forest.Holds

omit [Elementary] in
theorem Forest.exists_passLimit (f : Forest) : ∃ passes, f.passLimit = passes + 1 :=
  Nat.exists_eq_succ_of_ne_zero (Nat.mul_ne_zero (Nat.succ_ne_zero _) (Nat.succ_ne_zero _))

omit [Elementary] in
theorem Forest.Holds.size_lt_passLimit (held : f.Holds m (some t) ts) :
    t.term.size < f.passLimit := by
  rw [passLimit, liveSize_eq held.fits_live held.root]
  exact Nat.lt_of_lt_of_le (by omega) (Nat.le_mul_self _)

/-- The passes come to the term after the first of them. -/
theorem Forest.settle_passLimit (f : Forest) (t : Term Key) : t.settle f.passLimit = t.pass := by
  obtain ⟨passes, limit⟩ := f.exists_passLimit
  rw [limit, Term.settle_succ]

namespace Watch

theorem reduceNode_none (sink : Sink σ) (count : Nat) {i : Nat}
    (h : f.reduct? i = .ok none) : reduceNode sink count i ⟨f, notes⟩ = .ok count ⟨f, notes⟩ := by
  rw [reduceNode, bind_ok (look_eq _), h]
  rfl

theorem reduceNode_error (sink : Sink σ) (count : Nat) {i : Nat} {e : NumericFault}
    (h : f.reduct? i = .error e) : reduceNode sink count i ⟨f, notes⟩ =
      .ok count ⟨f, sink f (.foldingSkipped i (.numeric e)) notes⟩ := by
  rw [reduceNode, bind_ok (look_eq _), h]
  rfl

theorem reduceNode_some (sink : Sink σ) (count : Nat) {i : Nat} {r : Reduct}
    (h : f.reduct? i = .ok (some r)) (put : r.put i f = .ok () g) :
    reduceNode sink count i ⟨f, notes⟩ = .ok (count + 1) ⟨g, notes⟩ := by
  rw [reduceNode, bind_ok (look_eq _), h]
  cases r with
  | node j => exact bind_ok (act_ok put)
  | number v => exact bind_ok (act_ok put)

/-- The visit of a node does to the tree what it does to the term. -/
theorem reduceNode_spec (sink : Sink σ) (count : Nat) (notes : σ)
    (held : f.Holds m (some (k.plug s)) ts) :
    ∃ r g notes', reduceNode sink count s.top ⟨f, notes⟩ =
        .ok (count + s.term.reductions) ⟨g, notes'⟩ ∧
      r.term = s.term.reduce ∧ g.Holds m (some (k.plug r)) ts := by
  have fits := (Context.fits_plug.mp held.fits_live).1
  have reduct := fits.reduct?_eq
  cases h : s.term.remainder? with
  | error e =>
    rw [h] at reduct
    refine ⟨s, f, sink f (.foldingSkipped s.top (.numeric e)) notes, ?_, ?_, held⟩
    · rw [reduceNode_error sink count reduct, Term.reductions, h]
      rfl
    · rw [Term.reduce, h]
  | ok r? =>
    rw [h] at reduct
    cases r? with
    | none =>
      refine ⟨s, f, notes, ?_, ?_, held⟩
      · rw [reduceNode_none sink count reduct, Term.reductions, h]
        rfl
      · rw [Term.reduce, h]
    | some r =>
      obtain ⟨u, g, put, term, held, -⟩ := held.put_leave h
      rw [Term.reductions, Term.reduce, h]
      exact ⟨u, g, notes, reduceNode_some sink count reduct put, term, held⟩

/-- A sweep over the nodes of a part, in the order fixed before, is a pass over its term. -/
theorem sweep_spec (sink : Sink σ) (count : Nat) (notes : σ)
    (held : f.Holds m (some (k.plug t)) ts) :
    ∃ r g notes', t.descendants.foldlM (reduceNode sink) count ⟨f, notes⟩ =
        .ok (count + t.term.passReductions) ⟨g, notes'⟩ ∧
      r.term = t.term.pass ∧ g.Holds m (some (k.plug r)) ts := by
  induction t generalizing k f count notes with
  | number i x =>
    refine ⟨.number i x, f, notes, ?_, rfl, held⟩
    simp only [Tree.descendants, List.foldlM_cons, List.foldlM_nil, bind_pure]
    exact reduceNode_none sink count (Context.fits_plug.mp held.fits_live).1.reduct?_eq
  | var i key =>
    refine ⟨.var i key, f, notes, ?_, rfl, held⟩
    simp only [Tree.descendants, List.foldlM_cons, List.foldlM_nil, bind_pure]
    exact reduceNode_none sink count (Context.fits_plug.mp held.fits_live).1.reduct?_eq
  | unary i op t ih =>
    obtain ⟨r, f₁, notes₁, h₁, term₁, held⟩ := ih (k := .unary i op :: k) count notes held
    obtain ⟨r', g, notes', hg, term, held⟩ :=
      reduceNode_spec (s := .unary i op r) sink (count + t.term.passReductions) notes₁ held
    rw [Tree.term, term₁] at hg term
    refine ⟨r', g, notes', ?_, term, held⟩
    rw [Tree.descendants, List.foldlM_append, bind_ok h₁]
    simp only [List.foldlM_cons, List.foldlM_nil, bind_pure]
    refine hg.trans ?_
    rw [Tree.term, Term.passReductions, Nat.add_assoc]
  | binary i op s t ihs iht =>
    obtain ⟨r, f₁, notes₁, h₁, term₁, held⟩ := iht (k := .right i op s :: k) count notes held
    obtain ⟨r', f₂, notes₂, h₂, term₂, held⟩ :=
      ihs (k := .left i op r :: k) (count + t.term.passReductions) notes₁ held
    obtain ⟨r'', g, notes', hg, term, held⟩ :=
      reduceNode_spec (s := .binary i op r' r) sink
        (count + t.term.passReductions + s.term.passReductions) notes₂ held
    rw [Tree.term, term₁, term₂] at hg term
    refine ⟨r'', g, notes', ?_, term, held⟩
    rw [Tree.descendants, List.foldlM_append, List.foldlM_append,
      bind_ok ((bind_ok h₁).trans h₂)]
    simp only [List.foldlM_cons, List.foldlM_nil, bind_pure]
    refine hg.trans ?_
    rw [Tree.term, Term.passReductions, Nat.add_assoc, Nat.add_assoc, Nat.add_assoc]

theorem simplifyPass_spec (sink : Sink σ) (notes : σ) (held : f.Holds m (some t) ts) :
    ∃ r g notes', simplifyPass sink ⟨f, notes⟩ = .ok t.term.passReductions ⟨g, notes'⟩ ∧
      r.term = t.term.pass ∧ g.Holds m (some r) ts := by
  obtain ⟨r, g, notes', hg, term, held'⟩ := sweep_spec (k := []) sink 0 notes held
  refine ⟨r, g, notes', ?_, term, held'⟩
  rw [simplifyPass, bind_ok (act_ok held.rootIndex), bind_ok (look_eq _),
    descendantsFirst_eq held.fits_live]
  rw [Nat.zero_add] at hg
  exact hg

/-- Enough passes settle the term. -/
theorem simplifyPasses_spec (sink : Sink σ) (passes total : Nat) (notes : σ)
    (enough : t.term.size < passes) (held : f.Holds m (some t) ts) :
    ∃ r g notes' total', simplifyPasses sink passes total ⟨f, notes⟩ = .ok total' ⟨g, notes'⟩ ∧
      r.term = t.term.settle passes ∧ g.Holds m (some r) ts := by
  induction passes generalizing t f total notes with
  | zero => exact absurd enough (Nat.not_lt_zero _)
  | succ passes ih =>
    obtain ⟨r, f₁, notes₁, h₁, term₁, held⟩ := simplifyPass_spec sink notes held
    rw [simplifyPasses, bind_ok h₁, Term.settle]
    by_cases none : t.term.passReductions = 0
    · rw [if_pos none, if_pos none]
      exact ⟨r, f₁, notes₁, total, rfl, term₁, held⟩
    · rw [if_neg none, if_neg none, ← term₁]
      have smaller := t.term.size_pass
      rw [← term₁] at smaller
      exact ih _ notes₁ (by omega) held

/-- What the passes come to is the result of simplification. -/
theorem simplify_of_passes {n : Nat} {notes' : σ} (held : g.Holds m (some t) ts)
    (passed : simplifyPasses sink f.passLimit 0 ⟨f, notes⟩ = .ok n ⟨g, notes'⟩) :
    ∃ notes'', simplify sink ⟨f, notes⟩ = .ok n ⟨g, notes''⟩ := by
  by_cases pos : n > 0
  · refine ⟨sink g (.simplified t.top) notes', ?_⟩
    rw [simplify, bind_ok (look_eq _), bind_ok passed, if_pos pos]
    exact (bind_ok (act_ok held.rootIndex)).trans rfl
  · refine ⟨notes', ?_⟩
    rw [simplify, bind_ok (look_eq _), bind_ok passed, if_neg pos]
    rfl

/-- Simplification settles the live tree. -/
theorem simplify_spec (sink : Sink σ) (notes : σ) (held : f.Holds m (some t) ts) :
    ∃ r g notes' n, simplify sink ⟨f, notes⟩ = .ok n ⟨g, notes'⟩ ∧
      r.term = t.term.settle f.passLimit ∧ g.Holds m (some r) ts := by
  obtain ⟨r, g, notes', n, hg, term, after⟩ :=
    simplifyPasses_spec sink f.passLimit 0 notes held.size_lt_passLimit held
  obtain ⟨notes'', simplified⟩ := simplify_of_passes after hg
  exact ⟨r, g, notes'', n, simplified, term, after⟩

/-- Without a root there is nothing to simplify. -/
theorem simplify_rootless (sink : Sink σ) (notes : σ) (rootless : f.root = none) :
    simplify sink ⟨f, notes⟩ = .error .missingNode ⟨f, notes⟩ := by
  have failed : Edit.rootIndex f = .error .missingNode f := by
    simp only [Edit.rootIndex, rootless]
  obtain ⟨passes, limit⟩ := f.exists_passLimit
  rw [simplify, bind_ok (look_eq _), limit]
  exact bind_error (bind_error (bind_error (act_error failed)))

end Watch

end Fluxion
