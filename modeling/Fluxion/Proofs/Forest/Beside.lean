import Fluxion.Forest.Copy
import Fluxion.Proofs.Forest.BondedEdits
import Fluxion.Proofs.Invariants

/-!
# Building beside what is there

Copies and derivatives are built of new cells, which are bound to one another only. So what was
there before stays as it was, live or not, whether or not the building ends well.
-/

namespace Fluxion

namespace Forest

/-- Beside the cells of `base` there may be others in `f`, which name only one another. -/
structure Beside (base f : Forest) : Prop where
  size_le : base.size ≤ f.size
  cells : ∀ i < base.size, f.cells[i]? = base.cells[i]?
  parents : ∀ i < base.size, f.parent i = base.parent i
  slots : ∀ i, base.size ≤ i → ∀ c ∈ f.slots i, base.size ≤ c
  root : f.root = base.root
  retired : f.retired = base.retired
  registry : f.registry = base.registry

namespace Beside

variable {base f g : Forest}

theorem refl (f : Forest) : f.Beside f where
  size_le := Nat.le_refl _
  cells _ _ := rfl
  parents _ _ := rfl
  slots i hi c hc := by
    rw [slots_of_le hi] at hc
    cases hc
  root := rfl
  retired := rfl
  registry := rfl

/-- What is beside what is beside a forest is beside the forest. -/
theorem trans (h : base.Beside f) (h' : f.Beside g) : base.Beside g where
  size_le := h.size_le.trans h'.size_le
  cells i hi := (h'.cells i (hi.trans_le h.size_le)).trans (h.cells i hi)
  parents i hi := (h'.parents i (hi.trans_le h.size_le)).trans (h.parents i hi)
  slots i hi c hc := by
    by_cases before : i < f.size
    · rw [Forest.slots, h'.cells i before, ← Forest.slots] at hc
      exact h.slots i hi c hc
    · exact h.size_le.trans (h'.slots i (Nat.not_lt.mp before) c hc)
  root := h'.root.trans h.root
  retired := h'.retired.trans h.retired
  registry := h'.registry.trans h.registry

/-- No registry has a part in what is beside what. -/
theorem reregister (h : base.Beside f) (r : Registry) :
    Beside { base with registry := r } { f with registry := r } :=
  ⟨h.size_le, h.cells, h.parents, h.slots, h.root, h.retired, rfl⟩

theorem push (h : base.Beside f) {c : Cell} (new : ∀ a ∈ c.slots, base.size ≤ a) :
    base.Beside (f.push c) where
  size_le := by
    rw [size_push]
    exact Nat.le_succ_of_le h.size_le
  cells i hi := (cells_push_of_lt (Nat.lt_of_lt_of_le hi h.size_le)).trans (h.cells i hi)
  parents i hi := (parent_push f c i).trans (h.parents i hi)
  slots i hi a ha := by
    by_cases last : i = f.size
    · rw [last, slots_push_size] at ha
      exact new a ha
    · rw [slots_push_of_ne c last] at ha
      exact h.slots i hi a ha
  root := h.root
  retired := h.retired
  registry := h.registry

theorem link (h : base.Beside f) {i : Nat} (p : Option Nat) (new : base.size ≤ i) :
    base.Beside (f.link i p) where
  size_le := h.size_le
  cells := h.cells
  parents j hj := by
    rw [parent_link_of_ne p (Nat.ne_of_gt (Nat.lt_of_lt_of_le hj new))]
    exact h.parents j hj
  slots := h.slots
  root := h.root
  retired := h.retired
  registry := h.registry

/-- An expression that fits what was there before fits as well now. -/
theorem fits (h : base.Beside f) {t : Tree} (fits : t.Fits base.cells) : t.Fits f.cells :=
  fits.congr fun i hi => h.cells i (fits.lt i hi)

/-- An expression with a new top consists of new nodes. -/
theorem nodes_new (h : base.Beside f) {t : Tree} (fits : t.Fits f.cells)
    (new : base.size ≤ t.top) : ∀ i ∈ t.nodes, base.size ≤ i := by
  intro i hi
  induction reachable_of_mem_nodes fits hi with
  | refl => exact new
  | tail path step ih =>
    exact h.slots _ (ih (mem_nodes_of_reachable fits t.top_mem_nodes path)) _ step

end Beside

end Forest

/-- The edit builds beside `base`, and what it gives is new. -/
abbrev Edit.BuildsBeside (base : Forest) (x : Edit Nat) : Prop :=
  Ensures base.Beside (base.size ≤ ·) (fun _ => True) x

namespace Edit

variable {base : Forest} {a b : Nat}

theorem allocate_beside {c : Cell} (new : ∀ a ∈ c.slots, base.size ≤ a) :
    (allocate c).BuildsBeside base :=
  fun _ h => ⟨h.push new, h.size_le⟩

theorem setParent_beside (p : Option Nat) (new : base.size ≤ a) :
    Ensures base.Beside (fun _ => True) (fun _ => True) (setParent a p) :=
  fun _ h => ⟨h.link p new, trivial⟩

theorem applyUnary_beside (op : Unary) (new : base.size ≤ a) :
    (applyUnary op a).BuildsBeside base := by
  have slots : ∀ i ∈ (Cell.unary op a).slots, base.size ≤ i := by simpa [Cell.slots] using new
  refine .andThen (.require fun _ _ _ => trivial) fun _ => ?_
  refine (allocate_beside slots).bind fun i hi => ?_
  exact .andThen (setParent_beside _ new) fun _ => .pure hi

theorem applyBinary_beside (op : Binary) (newLeft : base.size ≤ a) (newRight : base.size ≤ b) :
    (applyBinary op a b).BuildsBeside base := by
  have slots : ∀ i ∈ (Cell.binary op a b).slots, base.size ≤ i := by
    simpa [Cell.slots] using ⟨newLeft, newRight⟩
  have join : (do
      let i ← allocate (.binary op a b)
      setParent a (some i)
      setParent b (some i)
      return i : Edit Nat).BuildsBeside base :=
    (allocate_beside slots).bind fun i hi => .andThen (setParent_beside _ newLeft) fun _ =>
      .andThen (setParent_beside _ newRight) fun _ => .pure hi
  refine .andThen (.require fun _ _ _ => trivial) fun _ =>
    .andThen (.require fun _ _ _ => trivial) fun _ => ?_
  by_cases same : a = b
  · rw [if_pos same]
    exact .andThen (.throw trivial) fun _ => join
  · rw [if_neg same]
    exact join

end Edit

/-! ### Programs and copies -/

/-- The operations of the algebra build beside `base` if they are given what is new. -/
structure Algebra.BuildsBeside {ν : Type} (base : Forest) (alg : Algebra Edit ν Nat) : Prop where
  number : ∀ x, (alg.number x).BuildsBeside base
  var : ∀ n, (alg.var n).BuildsBeside base
  unary : ∀ op a, base.size ≤ a → (alg.unary op a).BuildsBeside base
  binary : ∀ op a b, base.size ≤ a → base.size ≤ b → (alg.binary op a b).BuildsBeside base

namespace Algebra.BuildsBeside

variable {ν : Type} {base : Forest} {alg : Algebra Edit ν Nat}

theorem step (beside : alg.BuildsBeside base) (stack : List Nat) (s : Step ν)
    (new : ∀ a ∈ stack, base.size ≤ a) :
    Ensures base.Beside (fun stack => ∀ a ∈ stack, base.size ≤ a) (fun _ => True)
      (alg.step stack s) := by
  cases s with
  | number x =>
    exact (beside.number x).bind fun i hi => .pure (List.forall_mem_cons.mpr ⟨hi, new⟩)
  | var n => exact (beside.var n).bind fun i hi => .pure (List.forall_mem_cons.mpr ⟨hi, new⟩)
  | unary op =>
    cases stack with
    | nil => exact .throw trivial
    | cons a stack =>
      rw [List.forall_mem_cons] at new
      exact (beside.unary op a new.1).bind fun i hi =>
        .pure (List.forall_mem_cons.mpr ⟨hi, new.2⟩)
  | binary op =>
    cases stack with
    | nil => exact .throw trivial
    | cons b stack =>
      cases stack with
      | nil => exact .throw trivial
      | cons a stack =>
        rw [List.forall_mem_cons, List.forall_mem_cons] at new
        exact (beside.binary op a b new.2.1 new.1).bind fun i hi =>
          .pure (List.forall_mem_cons.mpr ⟨hi, new.2.2⟩)

/-- Whatever the program, what it leaves on the stack is new. -/
theorem run (beside : alg.BuildsBeside base) (ss : List (Step ν)) :
    (alg.run ss).BuildsBeside base := by
  have steps : Ensures base.Beside (fun stack : List Nat => ∀ a ∈ stack, base.size ≤ a)
      (fun _ => True) (ss.foldlM alg.step []) :=
    .foldlM (fun stack new s _ => beside.step stack s new) (by simp)
  refine steps.bind fun stack new => ?_
  cases stack with
  | nil => exact .throw trivial
  | cons a stack => exact .pure (new a List.mem_cons_self)

end Algebra.BuildsBeside

namespace Edit

variable {base : Forest}

theorem copying_beside : copying.BuildsBeside base where
  number _ := allocate_beside (by simp [Cell.slots])
  var _ := allocate_beside (by simp [Cell.slots])
  unary op _ := applyUnary_beside op
  binary op _ _ := applyBinary_beside op

theorem copy_beside (i : Nat) : (copy i).BuildsBeside base :=
  .andThen (.require fun _ _ _ => trivial) fun _ =>
    .andThen (.look fun _ _ => trivial) fun ss => copying_beside.run ss

end Edit

end Fluxion
