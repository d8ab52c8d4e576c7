import Fluxion.Proofs.Forest.Shape
import Mathlib.Data.Fintype.EquivFin
import Mathlib.Order.WellFounded

/-!
# Live graphs without a cycle

A node may fill several slots. As long as no live node is below itself, every live node
unfolds to a tree, in which a shared node occurs once for each path to it.
-/

namespace Fluxion

namespace Forest

/-- No slot of a live node is empty, and no live node is below itself. -/
structure Acyclic (f : Forest) : Prop where
  present : ∀ i, f.Live i → i < f.size
  acyclic : ∀ i, f.Live i → ¬ Relation.TransGen (fun a b => b ∈ f.slots a) i i

variable {f : Forest} {i j : Nat}

theorem Live.slot (h : f.Live i) (slot : j ∈ f.slots i) : f.Live j := by
  obtain ⟨r, root, path⟩ := h
  exact ⟨r, root, path.tail slot⟩

/-- What is below a live node, both being named by cells. -/
def Below (f : Forest) (j i : Fin f.size) : Prop :=
  f.Live i ∧ Relation.TransGen (fun a b => b ∈ f.slots a) i.val j.val

theorem slots_of_le (h : f.size ≤ i) : f.slots i = [] := by
  have out : f.cells[i]? = none := Array.getElem?_eq_none_iff.mpr h
  simp only [slots, out]

theorem lt_of_mem_slots (h : j ∈ f.slots i) : i < f.size := by
  by_contra out
  rw [slots_of_le (Nat.not_lt.mp out)] at h
  cases h

/-! ### Cells that come after their operands -/

section

variable (lt : ∀ i < f.size, ∀ j ∈ f.slots i, j < i)

include lt

theorem Live.le {r : Nat} (live : f.Live i) (root : f.root = some r) : i ≤ r := by
  obtain ⟨r', root', path⟩ := live
  rw [root, Option.some.injEq] at root'
  subst root'
  induction path with
  | refl => exact Nat.le_refl r
  | @tail b c _ step ih =>
    have down := lt b (lt_of_mem_slots step) c step
    omega

theorem acyclic_of_lt (root : ∀ r, f.root = some r → r < f.size) : f.Acyclic := by
  constructor
  · intro i live
    obtain ⟨r, hr, -⟩ := id live
    exact Nat.lt_of_le_of_lt (live.le lt hr) (root r hr)
  · intro i _ path
    have down {i j : Nat} (path : Relation.TransGen (fun a b => b ∈ f.slots a) i j) : j < i := by
      induction path with
      | single step => exact lt _ (lt_of_mem_slots step) _ step
      | tail _ step ih => exact (lt _ (lt_of_mem_slots step) _ step).trans ih
    exact (down path).false

end

/-! ### Unfolding -/

theorem Acyclic.wellFounded_below (h : f.Acyclic) : WellFounded f.Below := by
  have : IsTrans (Fin f.size) f.Below := ⟨fun _ _ _ hji hik => ⟨hik.1, hik.2.trans hji.2⟩⟩
  have : Std.Irrefl f.Below := ⟨fun i hi => h.acyclic i hi.1 hi.2⟩
  exact Finite.wellFounded_of_trans_of_irrefl f.Below

/-- Every live node unfolds. -/
theorem Acyclic.exists_tree (h : f.Acyclic) (live : f.Live i) :
    ∃ t : Tree, t.top = i ∧ t.Fits f.cells := by
  have unfold : ∀ n : Fin f.size, f.Live n → ∃ t : Tree, t.top = n ∧ t.Fits f.cells := by
    intro n
    induction n using h.wellFounded_below.induction with
    | _ n ih =>
      intro live
      have operand {a : Nat} (slot : a ∈ f.slots n) : ∃ t : Tree, t.top = a ∧ t.Fits f.cells :=
        ih ⟨a, h.present a (live.slot slot)⟩ ⟨live, .single slot⟩ (live.slot slot)
      obtain ⟨c, hc⟩ : ∃ c, f.cells[n.val]? = some c := ⟨_, Array.getElem?_eq_getElem n.isLt⟩
      have slots := slots_eq hc
      cases c with
      | number x => exact ⟨.number n x, rfl, hc⟩
      | var key => exact ⟨.var n key, rfl, hc⟩
      | unary op a =>
        obtain ⟨t, rfl, fits⟩ := operand (a := a) (by simp [slots, Cell.slots])
        exact ⟨.unary n op t, rfl, hc, fits⟩
      | binary op a b =>
        obtain ⟨s, rfl, fitsLeft⟩ := operand (a := a) (by simp [slots, Cell.slots])
        obtain ⟨t, rfl, fitsRight⟩ := operand (a := b) (by simp [slots, Cell.slots])
        exact ⟨.binary n op s t, rfl, hc, fitsLeft, fitsRight⟩
  exact unfold ⟨i, h.present i live⟩ live

end Forest

end Fluxion
