import Fluxion.Proofs.Registrations

/-!
# Sizes

Each cell has an entry for its parent, and the root is a cell. No use of a forest breaks that, not
even the compaction of an expression that leads back to itself. So what is added to a forest has
no parent at first and is not the root.
-/

namespace Fluxion

namespace Forest

variable {f : Forest} {i : Nat}

structure Sized (f : Forest) : Prop where
  sizes : f.parents.size = f.cells.size
  root_lt : ∀ r, f.root = some r → r < f.size

namespace Sized

theorem push (h : f.Sized) (c : Cell) : (f.push c).Sized where
  sizes := by simp [Forest.push, h.sizes]
  root_lt r root := by
    rw [size_push]
    exact Nat.lt_succ_of_lt (h.root_lt r root)

theorem link (h : f.Sized) (i : Nat) (p : Option Nat) : (f.link i p).Sized where
  sizes := by simp [Forest.link, h.sizes]
  root_lt := h.root_lt

theorem refill (h : f.Sized) (p old new : Nat) :
    Sized { f with cells := f.cells.modify p (Cell.refill old new) } where
  sizes := by simp [h.sizes]
  root_lt r root := by
    have lt : r < f.cells.size := h.root_lt r root
    simpa [size] using lt

theorem reregister (h : f.Sized) (r : Registry) : Sized { f with registry := r } :=
  ⟨h.sizes, h.root_lt⟩

end Sized

theorem sized_keptByWrites : KeptByWrites (fun _ => True) Sized where
  numbers _ _ _ _ _ := trivial
  push _ c h _ := h.push c
  refill _ p old new h := h.refill p old new
  parents _ i p h := h.link i p
  root f r lt h := by
    refine ⟨h.sizes, ?_⟩
    rintro s ⟨⟩
    exact lt
  retired _ _ h := ⟨h.sizes, h.root_lt⟩
  register _ _ h := h.reregister _
  assign _ _ _ r _ h := h.reregister r
  clear _ h := h.reregister _

theorem empty_sized : empty.Sized := ⟨rfl, nofun⟩

/-! ### Compaction -/

theorem mem_descendantsOnto {cells : Array Cell} {depth j : Nat} {rest : List Nat}
    (h : j ∈ rest) : j ∈ descendantsOnto cells depth i rest := by
  induction depth generalizing i rest with
  | zero => exact h
  | succ depth ih =>
    rw [descendantsOnto]
    split
    · exact h
    · exact ih (List.mem_cons_of_mem i h)
    · exact ih (ih (List.mem_cons_of_mem i h))
    · exact List.mem_cons_of_mem i h

/-- A node is met on the way down from itself, whatever its slots hold. -/
theorem mem_preorder_self (h : i < f.size) : i ∈ f.preorder i := by
  rw [preorder, List.mem_reverse, descendantsFirst]
  obtain ⟨depth, size⟩ : ∃ depth, f.size = depth + 1 := ⟨f.size - 1, by omega⟩
  have cell : f.cells[i]? = some f.cells[i] := Array.getElem?_eq_getElem h
  rw [size, descendantsOnto, cell]
  cases f.cells[i] with
  | number x => exact List.mem_cons_self
  | var key => exact List.mem_cons_self
  | unary op a => exact mem_descendantsOnto List.mem_cons_self
  | binary op a b => exact mem_descendantsOnto (mem_descendantsOnto List.mem_cons_self)

theorem compact_sized (h : f.Sized) : f.compact.Sized where
  sizes := sizes_compact f
  root_lt r root := by
    cases top : f.root with
    | none =>
      rw [compact_of_rootless top] at root
      cases root
    | some s =>
      rw [root_compact top, Option.some.injEq] at root
      have lt := h.root_lt s top
      have mem := mem_preorder_self lt
      have cell : f.cells[s]? = some f.cells[s] := Array.getElem?_eq_getElem lt
      rw [← root, compact_eq top, size, placedCells, List.size_toArray,
        List.length_pos_iff_exists_mem]
      exact ⟨_, List.mem_filterMap.mpr ⟨s, mem, by rw [cell]; rfl⟩⟩

/-- Every forest that is obtained is sized. -/
theorem Obtained.sized [Elementary] (obtained : f.Obtained) : f.Sized := by
  apply Obtained.kept sized_keptByWrites (fun _ => compact_sized) empty_sized ?_ obtained
  intro g u names held
  refine ⟨held.stands.sizes, ?_⟩
  intro r root
  rw [held.root, Option.map_some, Option.some.injEq] at root
  rw [← root]
  exact held.fits_live.top_lt

end Forest

end Fluxion
