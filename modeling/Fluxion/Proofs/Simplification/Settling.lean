import Fluxion.Journal.Sinks
import Fluxion.Proofs.Arithmetic.Signals
import Fluxion.Proofs.Calls
import Fluxion.Proofs.Simplification.Pass

/-!
# Whether simplification settles

On a tree every replacement makes the live expression smaller, so there are no more passes
than live nodes and one. Where a live node has lost its parent, no slot is changed when its
operand takes its place. Then the next pass finds the same node again, and so does every pass.
-/

namespace Fluxion

variable {σ : Type} {f : Forest} {spent : List Nat} {notes : σ} {key : Key}

/-- Live are the cells of `sin(0 + x)`, of which the sum has no parent. -/
structure Forest.Orphaned (f : Forest) (key : Key) : Prop where
  cells : f.cells = #[.number 0, .var key, .binary .add 0 1, .unary .sin 2]
  sizes : f.parents.size = 4
  root : f.root = some 3
  orphan : f.parent 2 = none
  movable : f.movable 2 1 = true

namespace Forest.Orphaned

/-- What lives looks like a tree to a walk, which does not ask for parents. -/
theorem fits (h : f.Orphaned key) :
    (Tree.unary 3 .sin (.binary 2 .add (.number 0 0) (.var 1 key))).Fits f.cells := by
  rw [h.cells]
  exact ⟨rfl, rfl, rfl, rfl⟩

/-- The slot of the sine still holds the sum. -/
theorem moved (h : f.Orphaned key) : (f.moved 2 1).Orphaned key where
  cells := by rw [cells_moved_of_detached h.orphan, h.cells]
  sizes := by simp [Forest.moved, h.sizes]
  root := by simp [Forest.moved, h.root]
  orphan := parent_moved_old f 2 1
  movable := by
    have sizes : f.parents.size = f.cells.size := by
      rw [h.sizes, h.cells]
      rfl
    have lt : 1 < f.size := by simp [size, h.cells]
    have above : (f.moved 2 1).parent 1 = none := by
      rw [parent_moved_new sizes lt (by decide), h.orphan]
    have root : (f.moved 2 1).root = some 3 := by simp [Forest.moved, h.root]
    rw [movable_iff, root]
    exact Or.inl ⟨above, by simp⟩

theorem replace_ok (h : f.Orphaned key) : Edit.replace 2 1 f = .ok () (f.moved 2 1) := by
  have size : f.size = 4 := by
    rw [size, h.cells]
    rfl
  apply Forest.replace_ok (by omega) (by omega) (by decide) h.movable
  intro p hp
  rw [h.orphan] at hp
  cases hp

variable [Elementary]

theorem reduct?_sum (h : f.Orphaned key) : f.reduct? 2 = .ok (some (.node 1)) := by
  have zero : near 0 (some 0) = true := by decide
  have sum : f.cells[2]? = some (.binary .add 0 1) := by rw [h.cells]; rfl
  have left : f.number? 0 = some 0 := by simp only [number?, h.cells]; rfl
  have right : f.number? 1 = none := by simp only [number?, h.cells]; rfl
  simp only [reduct?, sum, left, right, Binary.identity?, zero]
  rfl

theorem reduct?_other (h : f.Orphaned key) {i : Nat} (hi : i = 0 ∨ i = 1 ∨ i = 3) :
    f.reduct? i = .ok none := by
  rcases hi with rfl | rfl | rfl
  · simp only [reduct?, h.cells]
    rfl
  · simp only [reduct?, h.cells]
    rfl
  · have sine : f.cells[3]? = some (.unary .sin 2) := by rw [h.cells]; rfl
    have operand : f.number? 2 = none := by simp only [number?, h.cells]; rfl
    simp only [reduct?, sine, operand]

/-- A pass replaces the sum and leaves everything that is live as it was. -/
theorem simplifyPass (h : f.Orphaned key) (sink : Sink σ) (notes : σ) :
    Watch.simplifyPass sink ⟨f, notes⟩ = .ok 1 ⟨f.moved 2 1, notes⟩ := by
  have root : Edit.rootIndex f = .ok 3 f := by simp only [Edit.rootIndex, h.root]
  have order : f.descendantsFirst 3 = [1, 0, 2, 3] := descendantsFirst_eq h.fits
  have sum : Watch.reduceNode sink 0 2 ⟨f, notes⟩ = .ok 1 ⟨f.moved 2 1, notes⟩ := by
    rw [Watch.reduceNode, bind_ok (Watch.look_eq _), h.reduct?_sum]
    exact bind_ok (Watch.act_ok h.replace_ok)
  rw [Watch.simplifyPass, bind_ok (Watch.act_ok root), bind_ok (Watch.look_eq _), order,
    List.foldlM_cons, bind_ok (Watch.reduceNode_none sink 0 (h.reduct?_other (by decide))),
    List.foldlM_cons, bind_ok (Watch.reduceNode_none sink 0 (h.reduct?_other (by decide))),
    List.foldlM_cons, bind_ok sum,
    List.foldlM_cons, bind_ok (Watch.reduceNode_none sink 1 (h.moved.reduct?_other (by decide)))]
  rfl

/-- However many passes there are, they do not settle anything. -/
theorem unsettled (h : f.Orphaned key) (sink : Sink σ) (passes total : Nat) (notes : σ) :
    ∃ w, Watch.simplifyPasses sink passes total ⟨f, notes⟩ = .error .unsettled w := by
  induction passes generalizing f total with
  | zero => exact ⟨⟨f, notes⟩, rfl⟩
  | succ passes ih =>
    rw [Watch.simplifyPasses, bind_ok (h.simplifyPass sink notes), if_neg (by decide)]
    exact ih h.moved (total + 1)

end Forest.Orphaned

namespace Forest

/-- While no spent node is live, simplification ends after no more passes than there are live
nodes, and one. -/
theorem Handmade.simplify_settles [Elementary] (made : f.Handmade spent)
    (root : ∃ r, f.root = some r) (whole : ∀ i ∈ spent, ¬ f.Live i) (sink : Sink σ) (notes : σ) :
    (∃ n w, Watch.simplifyPasses sink (f.liveSize + 1) 0 ⟨f, notes⟩ = .ok n w) ∧
      ∃ n w, Watch.simplify sink ⟨f, notes⟩ = .ok n w := by
  obtain ⟨l?, held⟩ := (made.bonded.treeShaped whole).exists_holds
  cases l? with
  | none =>
    obtain ⟨r, root⟩ := root
    rw [held.root] at root
    cases root
  | some l =>
    have size : f.liveSize = l.term.size := liveSize_eq held.fits_live held.root
    have enough : l.term.size < f.liveSize + 1 := by omega
    obtain ⟨-, g, notes', n, passes, -⟩ :=
      Watch.simplifyPasses_spec sink (f.liveSize + 1) 0 notes enough held
    obtain ⟨-, g', notes'', n', simplified, -⟩ := Watch.simplify_spec sink notes held
    exact ⟨⟨n, _, passes⟩, n', _, simplified⟩

/-- The sum is left by one replacement. -/
theorem simplify_settles_unwrap : (Call.run Call.unwrap).1.Handmade [3] ∧
    (∃ r, (Call.run Call.unwrap).1.root = some r) ∧
    (∀ i ∈ [3], ¬ (Call.run Call.unwrap).1.Live i) ∧
    (∃ n w, @Watch.simplifyPasses .coarse Unit Sink.silent
      ((Call.run Call.unwrap).1.liveSize + 1) 0 ⟨(Call.run Call.unwrap).1, ()⟩ = .ok n w) ∧
    ∃ n w, @Watch.simplify .coarse Unit Sink.silent ⟨(Call.run Call.unwrap).1, ()⟩ = .ok n w :=
  ⟨handmade_unwrap, ⟨2, root_unwrap⟩, not_live_unwrap,
    @Handmade.simplify_settles Unit _ _ .coarse handmade_unwrap ⟨2, root_unwrap⟩ not_live_unwrap
      Sink.silent ()⟩

/-- The walk from the sine ends, and simplification does not. -/
theorem not_simplify_settles : ¬ ∀ calls : List Call, ∀ r, (Call.run calls).1.root = some r →
    (∃ ns, (Call.run calls).1.Walk r ns) → ∃ passes, ∀ w,
      @Watch.simplifyPasses .coarse Unit Sink.silent passes 0 ⟨(Call.run calls).1, ()⟩ ≠
        .error .unsettled w := by
  intro all
  have orphaned : (Call.run Call.rewrap).1.Orphaned 7 := by
    refine ⟨?_, ?_, ?_, ?_, ?_⟩
    all_goals decide
  obtain ⟨ns, walk, -⟩ := walk_of_fits orphaned.fits
  obtain ⟨passes, settled⟩ := all Call.rewrap 3 orphaned.root ⟨ns, walk⟩
  obtain ⟨w, unsettled⟩ := @Orphaned.unsettled Unit _ _ .coarse orphaned Sink.silent passes 0 ()
  exact settled w unsettled

end Forest

end Fluxion
