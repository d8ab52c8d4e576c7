import Fluxion.Proofs.Forest.SafeEdits
import Fluxion.Proofs.Forest.Upheld

/-!
# Consistent forests

In a consistent forest all slots hold cells, and every recorded parent has a slot for its child.
The other direction is not asked: a slot may be out of date, two slots may hold one cell, and
cells that are not live may lead back to themselves. So nothing here rests on a tree. Compaction
alone has to unfold the live expression, which must not lead back to itself then.
-/

namespace Fluxion

theorem Cell.slots_renumber (place : Nat → Nat) (c : Cell) :
    (c.renumber place).slots = c.slots.map place := by
  cases c <;> rfl

namespace Forest

variable {f : Forest}

structure Consistent (f : Forest) : Prop where
  sizes : f.parents.size = f.cells.size
  slots_lt : ∀ i, ∀ c ∈ f.slots i, c < f.size
  arities : ∀ (i : Nat) (c : Cell) (op : Operator), f.cells[i]? = some c →
    c.operator? = some op → op.arity = c.slots.length
  mem_slots : ∀ c p, f.parent c = some p → c ∈ f.slots p
  root_lt : ∀ r, f.root = some r → r < f.size
  root_detached : ∀ r, f.root = some r → f.parent r = none

theorem arity_eq_length {c : Cell} {op : Operator} (h : c.operator? = some op) :
    op.arity = c.slots.length := by
  cases c <;> cases h <;> rfl

/-- A forest is consistent if it is bonded, whichever of its nodes are spent. -/
theorem consistent_iff_bonded : f.Consistent ↔ ∃ spent, f.Bonded spent := by
  classical
  constructor
  · intro h
    refine ⟨(List.range f.size).filter fun i => ¬ f.Keeps i, h.sizes, h.slots_lt, h.root_lt,
      h.root_detached, h.mem_slots, ?_⟩
    intro i
    simp only [List.mem_filter, List.mem_range, decide_eq_true_eq, not_and, not_not]
    refine ⟨fun keeps _ => keeps, fun keeps => ?_⟩
    by_cases lt : i < f.size
    · exact keeps lt
    · intro c slot
      exact absurd (lt_of_mem_slots slot) lt
  · rintro ⟨spent, h⟩
    exact ⟨h.sizes, h.slots_lt, fun _ _ _ _ => arity_eq_length, h.mem_slots, h.root_lt,
      h.root_detached⟩

theorem empty_consistent : empty.Consistent := by
  refine ⟨rfl, ?_, fun _ _ _ _ => arity_eq_length, ?_, ?_, ?_⟩
  all_goals simp [empty, slots, parent]

/-! ### Compaction -/

/-- What the slots of the cell at a place hold are the places of what they held. -/
theorem mem_slots_placed {order : List Nat} (inside : ∀ i ∈ order, i < f.size) {p a : Nat}
    {c : Cell} (hc : (f.placedCells order)[p]? = some c) (slot : a ∈ c.slots) :
    ∃ i b, order[p]? = some i ∧ b ∈ f.slots i ∧ f.placeOf order b = a := by
  rw [getElem?_placedCells inside, Option.bind_eq_some_iff] at hc
  obtain ⟨i, hi, placed⟩ := hc
  obtain ⟨d, hd, rfl⟩ := Option.map_eq_some_iff.mp placed
  rw [Cell.slots_renumber, List.mem_map] at slot
  obtain ⟨b, hb, place⟩ := slot
  exact ⟨i, b, hi, by rwa [slots_eq hd], place⟩

/-- Whatever the forest was before, only its live expression counts. -/
theorem Acyclic.compact_consistent (acyclic : f.Acyclic) : f.compact.Consistent := by
  cases root : f.root with
  | none =>
    rw [compact_of_rootless root]
    refine ⟨rfl, ?_, fun _ _ _ _ => arity_eq_length, ?_, ?_, ?_⟩
    all_goals simp [slots, parent]
  | some r =>
    obtain ⟨t, rfl, fits⟩ := acyclic.exists_tree (i := r) ⟨r, root, .refl⟩
    have inside := inside_preorder fits
    have size := size_compact fits root
    obtain ⟨rest, first⟩ := preorder_cons fits
    have slots (p a : Nat) (slot : a ∈ f.compact.slots p) : ∃ i b,
        (f.preorder t.top)[p]? = some i ∧ b ∈ f.slots i ∧ f.placeOf (f.preorder t.top) b = a := by
      obtain ⟨c, hc, slot⟩ := exists_cell_of_mem_slots slot
      rw [compact_eq root] at hc
      exact mem_slots_placed inside hc slot
    have mem_slots (a p : Nat) (above : f.compact.parent a = some p) : a ∈ f.compact.slots p := by
      rw [compact_eq root] at above ⊢
      obtain ⟨c, hc, slot⟩ := mem_slots_of_inducedParents above
      rwa [slots_eq hc]
    refine ⟨sizes_compact f, ?_, fun _ _ _ _ => arity_eq_length, mem_slots, ?_, ?_⟩
    · intro p a slot
      obtain ⟨i, b, hi, below, place⟩ := slots p a slot
      have closed := mem_preorder_of_slot fits (List.mem_of_getElem? hi) below
      have found := getElem?_placeOf inside closed
      rw [place] at found
      obtain ⟨lt, -⟩ := List.getElem?_eq_some_iff.mp found
      rwa [size]
    · intro s hs
      rw [root_compact root, Option.some.injEq] at hs
      rw [← hs, size, first]
      exact Nat.zero_lt_succ _
    · intro s hs
      rw [root_compact root, Option.some.injEq] at hs
      subst hs
      rw [Option.eq_none_iff_forall_ne_some]
      intro p above
      -- only the root is at the first place, and it would be below itself
      obtain ⟨i, b, hi, below, place⟩ := slots p 0 (mem_slots 0 p above)
      have mem := List.mem_of_getElem? hi
      have found := getElem?_placeOf inside (mem_preorder_of_slot fits mem below)
      rw [place, first, List.getElem?_cons_zero, Option.some.injEq] at found
      subst found
      have path := reachable_of_mem_nodes fits ((preorder_perm fits).mem_iff.mp mem)
      exact acyclic.acyclic t.top ⟨t.top, root, .refl⟩ (.tail' path below)

/-! ### Edits -/

namespace Consistent

theorem after_safe {α : Type} {x : Edit α} (safe : x.Safe) (h : f.Consistent) :
    (x.after f).Consistent := by
  obtain ⟨spent, bonded⟩ := consistent_iff_bonded.mp h
  exact consistent_iff_bonded.mpr ⟨spent, safe f spent bonded⟩

theorem after_replace (h : f.Consistent) (old new : Nat) :
    ((Edit.replace old new).after f).Consistent := by
  obtain ⟨spent, bonded⟩ := consistent_iff_bonded.mp h
  exact consistent_iff_bonded.mpr ⟨_, Edit.replace_bonded bonded old new⟩

theorem reregister (h : f.Consistent) (r : Registry) : Consistent { f with registry := r } :=
  ⟨h.sizes, h.slots_lt, h.arities, h.mem_slots, h.root_lt, h.root_detached⟩

theorem retire (h : f.Consistent) (is : Array Nat) : Consistent { f with retired := is } :=
  ⟨h.sizes, h.slots_lt, h.arities, h.mem_slots, h.root_lt, h.root_detached⟩

theorem upholds_of_after {α : Type} {x : Edit α}
    (after : ∀ f : Forest, f.Consistent → (x.after f).Consistent) :
    x.Upholds Consistent fun _ => True := by
  intro f h
  have left := after f h
  cases hx : x f with
  | ok a g =>
    rw [Edit.after_ok hx] at left
    exact ⟨left, trivial⟩
  | error e g =>
    rw [Edit.after_error hx] at left
    exact ⟨left, trivial⟩

theorem upholds_of_safe {α : Type} {x : Edit α} (safe : x.Safe) :
    x.Upholds Consistent fun _ => True :=
  upholds_of_after fun _ h => h.after_safe safe

theorem upheld : Upheld (fun _ => True) (fun _ => True) Consistent where
  numbers _ _ _ _ _ := trivial
  faults _ _ := trivial
  number x _ := upholds_of_safe (Edit.number_safe x)
  var key := upholds_of_safe (Edit.var_safe key)
  applyUnary op a := upholds_of_safe (Edit.applyUnary_safe op a)
  applyBinary op a b := upholds_of_safe (Edit.applyBinary_safe op a b)
  setRoot i := upholds_of_safe (Edit.setRoot_safe i)
  replace old new := upholds_of_after fun _ h => h.after_replace old new
  register symbol := fun _ h => ⟨h.reregister _, trivial⟩
  assign symbol x := by
    intro f h
    cases entered : f.registry.assign? symbol x with
    | some r => simpa only [Edit.assign, entered] using ⟨h.reregister r, trivial⟩
    | none => simpa only [Edit.assign, entered] using ⟨h, trivial⟩
  clear := fun _ h => ⟨h.reregister _, trivial⟩

/-- With both nodes there, replacement fails only where the new one is attached elsewhere. -/
theorem replace_error (h : f.Consistent) {old new : Nat} {e : Fault} {g : Forest}
    (hold : old < f.size) (hnew : new < f.size) (failed : Edit.replace old new f = .error e g) :
    e = .alreadyAttached new := by
  obtain ⟨spent, bonded⟩ := consistent_iff_bonded.mp h
  by_cases same : old = new
  · subst same
    rw [replace_self hold] at failed
    cases failed
  · cases movable : f.movable old new with
    | true =>
      rw [replace_ok hold hnew same movable bonded.holder] at failed
      cases failed
    | false =>
      rw [replace_attached hold hnew same movable] at failed
      cases failed
      rfl

end Consistent

end Forest

end Fluxion
