import Fluxion.Proofs.Simplification.Preservation
import Fluxion.Proofs.Simplification.Rest

/-!
# One pass is enough

The first pass brings the live expression to its normal form, in which the next one finds
nothing to replace. What is replaced on the way is accounted for: every replacement retires an
operator node, no node is retired twice, and only numbers take new cells.
-/

namespace Fluxion

open Forest

/-! ### The normal form of a term -/

section

variable [Elementary] {ν : Type}

/-- The normal form of a function of what is normal: its value, if it has a number for its
operand and raises no signal. -/
def Unary.normal (op : Unary) : Term ν → Term ν
  | .number x =>
    match op.apply x with
    | .ok v => .number v
    | .error _ => .unary op (.number x)
  | t => .unary op t

/-- The normal form of an operation on what is normal: its value, if both operands are numbers
and it raises no signal; what the first identity that applies leaves, if not both are numbers. -/
def Binary.normal (op : Binary) : Term ν → Term ν → Term ν
  | .number x, .number y =>
    match op.apply x y with
    | .ok v => .number v
    | .error _ => .binary op (.number x) (.number y)
  | s, t =>
    match (op.accepted? s.number? t.number?).map Identity.remainder with
    | some (.constant c) => .number c
    | some .left => s
    | some .right => t
    | none => .binary op s t

namespace Term

/-- Operands first, then their operator. -/
def normal : Term ν → Term ν
  | number x => number x
  | var n => var n
  | unary op t => op.normal t.normal
  | binary op s t => op.normal s.normal t.normal

theorem reduce_unary (op : Unary) (t : Term ν) : (unary op t).reduce = op.normal t := by
  cases t with
  | number x =>
    simp only [reduce, remainder?, number?, Unary.normal]
    cases op.apply x <;> rfl
  | var n => rfl
  | unary op' t => rfl
  | binary op' s t => rfl

theorem reduce_binary (op : Binary) (s t : Term ν) : (binary op s t).reduce = op.normal s t := by
  by_cases both : ∃ x y, s = number x ∧ t = number y
  · obtain ⟨x, y, rfl, rfl⟩ := both
    simp only [reduce, remainder?, number?, Binary.normal]
    cases op.apply x y <;> rfl
  · have notBoth : ∀ x y, s = number x → t ≠ number y := fun x y hs ht => both ⟨x, y, hs, ht⟩
    have normal : op.normal s t =
        match (op.accepted? s.number? t.number?).map Identity.remainder with
        | some (.constant c) => .number c
        | some .left => s
        | some .right => t
        | none => .binary op s t := by
      rw [Binary.normal]
      exact fun x y hs ht => notBoth x y hs ht
    rw [reduce, remainder?_of_number?_eq_none (number?_eq_none_of_notBoth notBoth),
      op.identity?_eq, normal]
    cases (op.accepted? s.number? t.number?).map Identity.remainder with
    | none => rfl
    | some r => cases r <;> rfl

theorem pass_eq_normal (t : Term ν) : t.pass = t.normal := by
  induction t with
  | number x => rfl
  | var n => rfl
  | unary op t ih => rw [pass, normal, reduce_unary, ih]
  | binary op s t ihs iht => rw [pass, normal, reduce_binary, ihs, iht]

end Term

end

/-! ### Operator nodes -/

/-- The operators, in the order in which a pass comes to them. -/
def Tree.operators : Tree → List Nat
  | number _ _ | var _ _ => []
  | unary i _ t => t.operators ++ [i]
  | binary i _ s t => t.operators ++ s.operators ++ [i]

namespace Forest

def isOperator (f : Forest) (i : Nat) : Bool := f.cells[i]?.any fun c => !c.isLeaf

/-- The operator nodes of the live expression. -/
def liveOperators (f : Forest) : List Nat :=
  match f.root with
  | some r => (f.descendantsFirst r).filter f.isOperator
  | none => []

end Forest

variable {σ : Type} {f g h : Forest} {m : Mark} {s t : Tree} {ts : List Tree} {k : Context}

theorem Tree.Fits.isOperator_eq (fits : t.Fits f.cells) :
    f.isOperator t.top = !t.cell.isLeaf := by
  rw [isOperator, fits.cell, Option.any_some]

theorem Tree.Fits.filter_isOperator (fits : t.Fits f.cells) :
    t.descendants.filter f.isOperator = t.operators := by
  induction t with
  | number i x =>
    have leaf : f.isOperator i = false := fits.isOperator_eq
    simp [Tree.descendants, Tree.operators, leaf]
  | var i key =>
    have leaf : f.isOperator i = false := fits.isOperator_eq
    simp [Tree.descendants, Tree.operators, leaf]
  | unary i op t ih =>
    have operator : f.isOperator i = true := fits.isOperator_eq
    simp [Tree.descendants, Tree.operators, operator, ih fits.2]
  | binary i op s t ihs iht =>
    have operator : f.isOperator i = true := fits.isOperator_eq
    simp [Tree.descendants, Tree.operators, operator, ihs fits.2.1, iht fits.2.2]

theorem Forest.Holds.liveOperators_eq (held : f.Holds m (some t) ts) :
    f.liveOperators = t.operators := by
  have root : f.root = some t.top := held.root
  rw [liveOperators, root]
  simp only
  rw [descendantsFirst_eq held.fits_live, held.fits_live.filter_isOperator]

theorem Forest.Holds.mem_liveOperators (held : f.Holds m (some t) ts) {i : Nat} :
    i ∈ f.liveOperators ↔ f.Live i ∧ f.isOperator i = true := by
  rw [held.liveOperators_eq, ← held.fits_live.filter_isOperator, List.mem_filter,
    t.descendants_perm.mem_iff, held.live_iff]

theorem Forest.Holds.nodup_liveOperators (held : f.Holds m (some t) ts) :
    f.liveOperators.Nodup := by
  rw [held.liveOperators_eq, ← held.fits_live.filter_isOperator]
  exact (t.descendants_perm.nodup_iff.mpr held.stands.nodup_head).filter _

/-! ### Replacements -/

/-- A node that is replaced, the forest at that moment and what the node is replaced by. -/
structure Replacement where
  before : Forest
  node : Nat
  reduct : Reduct

/-- There are fewer live nodes after the replacement. -/
def Replacement.Shrinks (r : Replacement) : Prop :=
  ∃ g, r.reduct.put r.node r.before = .ok () g ∧ g.liveSize < r.before.liveSize

/-- What so many replacements make of `f`. -/
structure Forest.Accounts (f g : Forest) (count : Nat) (rs : List Replacement) : Prop where
  count : count = rs.length
  retired : g.retired.toList = f.retired.toList ++ rs.map Replacement.node
  size : g.size = f.size + rs.countP (·.reduct.isNumber)
  shrinks : ∀ r ∈ rs, r.Shrinks

namespace Forest.Accounts

variable {n n' : Nat} {rs rs' : List Replacement}

theorem refl (f : Forest) : f.Accounts f 0 [] where
  count := rfl
  retired := by simp
  size := rfl
  shrinks := by simp

theorem eq_nil (none : f.Accounts g 0 rs) : rs = [] :=
  List.length_eq_zero_iff.mp none.count.symm

theorem trans (first : f.Accounts g n rs) (second : g.Accounts h n' rs') :
    f.Accounts h (n + n') (rs ++ rs') where
  count := by rw [first.count, second.count, List.length_append]
  retired := by rw [second.retired, first.retired, List.map_append, List.append_assoc]
  size := by rw [second.size, first.size, List.countP_append, Nat.add_assoc]
  shrinks := List.forall_mem_append.mpr ⟨first.shrinks, second.shrinks⟩

end Forest.Accounts

/-- A smaller part makes the whole smaller. -/
theorem Context.size_plug_lt (k : Context) (smaller : s.term.size < t.term.size) :
    (k.plug s).term.size < (k.plug t).term.size := by
  induction k generalizing s t with
  | nil => exact smaller
  | cons c k ih =>
    apply ih
    cases c <;> simp only [Frame.fill, Tree.term, Term.size] <;> omega

theorem Forest.Holds.exists_passLimit_two (held : f.Holds m (some t) ts) :
    ∃ passes, f.passLimit = passes + 2 := by
  have nonempty : 0 < f.size := Nat.lt_of_le_of_lt (Nat.zero_le _) held.fits_live.top_lt
  have room : 2 ≤ f.passLimit := by
    rw [passLimit]
    exact Nat.le_trans (by omega) (Nat.le_mul_self _)
  exact ⟨f.passLimit - 2, by omega⟩

section

variable [Elementary]

/-- What is replaced in visits. -/
def replacementsIn (visits : List (Forest × Nat)) : List Replacement :=
  visits.filterMap fun (f, i) =>
    match f.reduct? i with
    | .ok (some r) => some ⟨f, i, r⟩
    | _ => none

theorem replacementsIn_append (vs vs' : List (Forest × Nat)) :
    replacementsIn (vs ++ vs') = replacementsIn vs ++ replacementsIn vs' :=
  List.filterMap_append

theorem nodes_replacementsIn (vs : List (Forest × Nat)) :
    ((replacementsIn vs).map Replacement.node).Sublist (vs.map Prod.snd) := by
  induction vs with
  | nil => exact List.Sublist.refl _
  | cons v vs ih =>
    rw [replacementsIn, List.filterMap_cons]
    split
    · exact ih.cons v.2
    · next r hr =>
      have node : r.node = v.2 := by grind
      rw [List.map_cons, List.map_cons, node]
      exact ih.cons_cons v.2

/-- What is replaced in a run of simplification. -/
def Watch.replacements (sink : Sink σ) (w : Watched σ) : List Replacement :=
  replacementsIn (visits sink w.forest.passLimit w)

namespace Watch

variable {sink : Sink σ} {count count' : Nat} {notes notes' : σ}

theorem sweepVisits_singleton (sink : Sink σ) (i count : Nat) (w : Watched σ) :
    sweepVisits sink [i] count w = [(w.forest, i)] := by
  rw [sweepVisits]
  cases reduceNode sink count i w <;> rfl

/-- The account of a single visit. -/
theorem visit_accounts (held : f.Holds m (some (k.plug s)) ts)
    (visited : reduceNode sink count s.top ⟨f, notes⟩ = .ok count' ⟨g, notes'⟩) :
    f.Accounts g s.term.reductions (replacementsIn [(f, s.top)]) := by
  have reduct := (Context.fits_plug.mp held.fits_live).1.reduct?_eq
  cases hr : s.term.remainder? with
  | error e =>
    rw [hr] at reduct
    cases (reduceNode_error sink count reduct).symm.trans visited
    simpa [replacementsIn, reduct, Except.map, Term.reductions, hr] using Accounts.refl f
  | ok r? =>
    rw [hr] at reduct
    cases r? with
    | none =>
      cases (reduceNode_none sink count reduct).symm.trans visited
      simpa [replacementsIn, reduct, Except.map, Term.reductions, hr] using Accounts.refl f
    | some r =>
      obtain ⟨u, g', put, term, after, retired, size⟩ := held.put_leave hr
      cases (reduceNode_some sink count reduct put).symm.trans visited
      have one : replacementsIn [(f, s.top)] = [⟨f, s.top, s.leave r⟩] := by
        simp [replacementsIn, reduct, Except.map]
      have fewer : (k.plug u).term.size < (k.plug s).term.size := by
        apply k.size_plug_lt
        rw [term]
        exact Term.size_leave hr
      rw [one]
      refine ⟨by simp [Term.reductions, hr], by simp [retired], ?_, ?_⟩
      · rw [size, List.countP_singleton]
      · simp only [List.mem_singleton, forall_eq]
        refine ⟨g, put, ?_⟩
        rw [liveSize_eq after.fits_live after.root, liveSize_eq held.fits_live held.root]
        exact fewer

/-- The account of a sweep over a leaf, at which nothing is replaced. -/
theorem leaf_accounts (held : f.Holds m (some (k.plug s)) ts) (leaf : s.descendants = [s.top])
    (none : s.term.reductions = 0)
    (swept : s.descendants.foldlM (reduceNode sink) count ⟨f, notes⟩ = .ok count' ⟨g, notes'⟩) :
    f.Accounts g 0 (replacementsIn (sweepVisits sink s.descendants count ⟨f, notes⟩)) := by
  rw [leaf, List.foldlM_cons] at swept
  simp only [List.foldlM_nil, bind_pure] at swept
  rw [leaf, sweepVisits_singleton, ← none]
  exact visit_accounts held swept

/-- The account of a sweep over a part, in which only operators are replaced. -/
theorem sweep_accounts (held : f.Holds m (some (k.plug t)) ts)
    (swept : t.descendants.foldlM (reduceNode sink) count ⟨f, notes⟩ = .ok count' ⟨g, notes'⟩) :
    f.Accounts g t.term.passReductions
        (replacementsIn (sweepVisits sink t.descendants count ⟨f, notes⟩)) ∧
      ((replacementsIn (sweepVisits sink t.descendants count ⟨f, notes⟩)).map
        Replacement.node).Sublist t.operators := by
  induction t generalizing k f count notes count' g notes' with
  | number i x =>
    have leaf := leaf_accounts held rfl rfl swept
    refine ⟨leaf, ?_⟩
    rw [leaf.eq_nil]
    exact List.nil_sublist _
  | var i key =>
    have leaf := leaf_accounts held rfl rfl swept
    refine ⟨leaf, ?_⟩
    rw [leaf.eq_nil]
    exact List.nil_sublist _
  | unary i op t ih =>
    obtain ⟨r, f₁, notes₁, h₁, term₁, held₁⟩ :=
      sweep_spec (k := .unary i op :: k) sink count notes held
    obtain ⟨operand, nodes⟩ := ih (k := .unary i op :: k) held h₁
    rw [Tree.descendants, List.foldlM_append, bind_ok h₁] at swept
    simp only [List.foldlM_cons, List.foldlM_nil, bind_pure] at swept
    have top := visit_accounts (s := .unary i op r) held₁ swept
    rw [Tree.term, term₁] at top
    rw [Tree.descendants, sweepVisits_append h₁, sweepVisits_singleton, replacementsIn_append]
    refine ⟨operand.trans top, ?_⟩
    rw [List.map_append]
    exact nodes.append (nodes_replacementsIn _)
  | binary i op s t ihs iht =>
    obtain ⟨r, f₁, notes₁, h₁, term₁, held₁⟩ :=
      sweep_spec (k := .right i op s :: k) sink count notes held
    obtain ⟨r', f₂, notes₂, h₂, term₂, held₂⟩ :=
      sweep_spec (k := .left i op r :: k) sink (count + t.term.passReductions) notes₁ held₁
    obtain ⟨right, nodesRight⟩ := iht (k := .right i op s :: k) held h₁
    obtain ⟨left, nodesLeft⟩ := ihs (k := .left i op r :: k) held₁ h₂
    rw [Tree.descendants, List.foldlM_append, List.foldlM_append,
      bind_ok ((bind_ok h₁).trans h₂)] at swept
    simp only [List.foldlM_cons, List.foldlM_nil, bind_pure] at swept
    have top := visit_accounts (s := .binary i op r' r) held₂ swept
    rw [Tree.term, term₁, term₂] at top
    rw [Tree.descendants, List.append_assoc, sweepVisits_append h₁, sweepVisits_append h₂,
      sweepVisits_singleton, ← List.append_assoc, replacementsIn_append, replacementsIn_append]
    refine ⟨(right.trans left).trans top, ?_⟩
    rw [List.map_append, List.map_append]
    exact (nodesRight.append nodesLeft).append (nodes_replacementsIn _)

/-- The account of a pass over the live expression. -/
theorem simplifyPass_accounts (held : f.Holds m (some t) ts)
    (passed : simplifyPass sink ⟨f, notes⟩ = .ok count ⟨g, notes'⟩) :
    ∃ u, g.Holds m (some u) ts ∧ u.term = t.term.pass ∧ count = t.term.passReductions ∧
      f.Accounts g count (replacementsIn (sweepVisits sink t.descendants 0 ⟨f, notes⟩)) ∧
      ((replacementsIn (sweepVisits sink t.descendants 0 ⟨f, notes⟩)).map
        Replacement.node).Sublist f.liveOperators := by
  obtain ⟨u, g', notes'', hg, term, after⟩ := simplifyPass_spec sink notes held
  cases hg.symm.trans passed
  rw [simplifyPass, bind_ok (act_ok held.rootIndex), bind_ok (look_eq _),
    descendantsFirst_eq held.fits_live] at passed
  obtain ⟨accounts, nodes⟩ := sweep_accounts (k := []) held passed
  exact ⟨u, after, term, rfl, accounts, held.liveOperators_eq ▸ nodes⟩

/-- Two passes are enough if the second replaces nothing. -/
theorem simplifyPasses_two (passes total : Nat)
    (first : simplifyPass sink ⟨f, notes⟩ = .ok count ⟨g, notes'⟩)
    (rest : ∀ notes, ∃ notes', simplifyPass sink ⟨g, notes⟩ = .ok 0 ⟨g, notes'⟩) :
    ∃ notes'', simplifyPasses sink (passes + 2) total ⟨f, notes⟩ =
      .ok (total + count) ⟨g, notes''⟩ := by
  rw [simplifyPasses, bind_ok first]
  by_cases none : count = 0
  · rw [if_pos none, none]
    exact ⟨notes', rfl⟩
  · obtain ⟨notes'', second⟩ := rest notes'
    rw [if_neg none, simplifyPasses, bind_ok second, if_pos rfl]
    exact ⟨notes'', rfl⟩

/-- Simplification comes to what the first pass leaves, if nothing is replaced in that. -/
theorem simplify_of_first {u : Tree} (held : f.Holds m (some t) ts) (after : g.Holds m (some u) ts)
    (settled : u.term.passReductions = 0)
    (first : simplifyPass sink ⟨f, notes⟩ = .ok count ⟨g, notes'⟩) :
    ∃ notes'', simplify sink ⟨f, notes⟩ = .ok count ⟨g, notes''⟩ := by
  obtain ⟨passes, limit⟩ := held.exists_passLimit_two
  obtain ⟨notes₂, passed⟩ := simplifyPasses_two passes 0 first fun notes =>
    simplifyPass_rest sink notes after settled
  rw [← limit, Nat.zero_add] at passed
  exact simplify_of_passes after passed

/-- All replacements of a run are those of its first sweep. -/
theorem replacements_eq (sink : Sink σ) (notes : σ) (held : f.Holds m (some t) ts) :
    replacements sink ⟨f, notes⟩ =
      replacementsIn (sweepVisits sink t.descendants 0 ⟨f, notes⟩) := by
  obtain ⟨passes, limit⟩ := f.exists_passLimit
  obtain ⟨u, g, notes', first, term, after⟩ := simplifyPass_spec sink notes held
  have later : replacementsIn (visits sink passes ⟨g, notes'⟩) = [] := by
    cases passes with
    | zero => rfl
    | succ passes =>
      have rest : u.term.passReductions = 0 := by rw [term, Term.passReductions_pass]
      obtain ⟨notes'', second⟩ := simplifyPass_rest sink notes' after rest
      obtain ⟨-, -, -, -, accounts, -⟩ := simplifyPass_accounts after second
      have root : g.root = some u.top := after.root
      simp only [visits, root, second, if_true, List.append_nil]
      rw [descendantsFirst_eq after.fits_live]
      exact accounts.eq_nil
  have root : f.root = some t.top := held.root
  simp only [replacements, limit, visits, root, first]
  rw [descendantsFirst_eq held.fits_live, replacementsIn_append]
  split
  · exact List.append_nil _
  · rw [later, List.append_nil]

end Watch

/-- The first pass brings the live expression to its normal form, and no later pass replaces
anything. Every replacement retires another of the operators that were live and leaves fewer
nodes live, and there is a new cell for each number that is put in the place of an operator. -/
theorem simplify_in_one_pass (sink : Sink σ) (notes : σ) (f : Forest) (shaped : f.TreeShaped)
    (r : Nat) (root : f.root = some r) :
    ∃ (n : Nat) (g : Forest) (notes₁ notes₂ notes₃ : σ) (r' : Nat) (e : Term Key),
      f.term? r = some e ∧ g.root = some r' ∧ g.term? r' = some e.normal ∧
      Watch.simplifyPass sink ⟨f, notes⟩ = .ok n ⟨g, notes₁⟩ ∧
      (∀ notes, ∃ notes', Watch.simplifyPass sink ⟨g, notes⟩ = .ok 0 ⟨g, notes'⟩) ∧
      Watch.simplifyPasses sink 2 0 ⟨f, notes⟩ = .ok n ⟨g, notes₂⟩ ∧
      Watch.simplify sink ⟨f, notes⟩ = .ok n ⟨g, notes₃⟩ ∧
      f.Accounts g n (Watch.replacements sink ⟨f, notes⟩) ∧
      ((Watch.replacements sink ⟨f, notes⟩).map Replacement.node).Nodup ∧
      ∀ s ∈ Watch.replacements sink ⟨f, notes⟩, f.Live s.node ∧ f.isOperator s.node = true := by
  obtain ⟨t, held⟩ := shaped.exists_holds_some ⟨r, root⟩
  have top : r = t.top := Option.some.inj (root.symm.trans held.root)
  obtain ⟨-, g, notes₁, first, -, -⟩ := Watch.simplifyPass_spec sink notes held
  obtain ⟨u, after, term, -, accounts, nodes⟩ := Watch.simplifyPass_accounts held first
  have settled : u.term.passReductions = 0 := by rw [term, Term.passReductions_pass]
  have rest (notes : σ) : ∃ notes', Watch.simplifyPass sink ⟨g, notes⟩ = .ok 0 ⟨g, notes'⟩ :=
    Watch.simplifyPass_rest sink notes after settled
  obtain ⟨notes₂, two⟩ := Watch.simplifyPasses_two 0 0 first rest
  simp only [Nat.zero_add] at two
  obtain ⟨notes₃, simplified⟩ := Watch.simplify_of_first held after settled first
  rw [Watch.replacements_eq sink notes held]
  refine ⟨_, g, notes₁, notes₂, notes₃, u.top, t.term, top ▸ term?_eq held.fits_live, after.root,
    ?_, first, rest, two, simplified, accounts, held.nodup_liveOperators.sublist nodes, ?_⟩
  · rw [term?_eq after.fits_live, term, t.term.pass_eq_normal]
  · intro s hs
    exact held.mem_liveOperators.mp (nodes.subset (List.mem_map_of_mem hs))

end

/-- In `0 ^ x + x * 1` the product is replaced first, then the power, which needs a new cell, and
then the sum of what they leave. -/
theorem simplify_in_one_pass_sumWithPower :
    sumWithPower.TreeShaped ∧ sumWithPower.root = some 6 ∧
      ∃ (g : Forest) (notes : Unit) (r : Nat),
        @Watch.simplify .coarse Unit Sink.silent ⟨sumWithPower, ()⟩ = .ok 3 ⟨g, notes⟩ ∧
        g.root = some r ∧ g.term? r = some (.var (.ofSymbol 'x')) ∧
        g.retired.toList = [5, 2, 6] ∧ g.size = 8 := by
  have shaped := sumWithPower_holds.treeShaped
  obtain ⟨n, g, -, -, notes, r, e, he, root, hr, -, -, -, done, accounts, -, -⟩ :=
    @simplify_in_one_pass Unit .coarse Sink.silent () sumWithPower shaped 6 rfl
  have nodes : (@Watch.replacements Unit .coarse Sink.silent ⟨sumWithPower, ()⟩).map
      Replacement.node = [5, 2, 6] := by decide +kernel
  have numbers : (@Watch.replacements Unit .coarse Sink.silent ⟨sumWithPower, ()⟩).countP
      (·.reduct.isNumber) = 1 := by decide +kernel
  have count : n = 3 := by
    rw [accounts.count, ← List.length_map Replacement.node, nodes]
    rfl
  have sum : sumWithPower.term? 6 = some (.binary .add
      (.binary .pow (.number 0) (.var (.ofSymbol 'x')))
      (.binary .mul (.var (.ofSymbol 'x')) (.number 1))) := by decide +kernel
  cases he.symm.trans sum
  subst count
  refine ⟨shaped, rfl, g, notes, r, done, root, ?_, ?_, ?_⟩
  · rw [hr]
    decide +kernel
  · rw [accounts.retired, nodes]
    rfl
  · rw [accounts.size, numbers]
    rfl

end Fluxion
