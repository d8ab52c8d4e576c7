import Fluxion.Forest.Compact
import Fluxion.Forest.Copy
import Fluxion.Proofs.Programs

/-!
# The numbers of a forest

A property of all numbers that stand in the arena, in live cells or in others, is kept when a
cell is added, when a slot is refilled and when live cells get other places.
-/

namespace Fluxion

variable {P : Float → Prop} {f : Forest}

namespace Forest

/-- All numbers of the arena have the property. -/
def Numbers (P : Float → Prop) (f : Forest) : Prop :=
  ∀ (i : Nat) (x : Float), f.cells[i]? = some (.number x) → P x

theorem empty_numbers : empty.Numbers P := by
  intro i x h
  simp [empty] at h

theorem Numbers.program (h : f.Numbers P) {i : Nat} {x : Float}
    (hx : .number x ∈ f.program i) : P x := by
  obtain ⟨j, -, hj⟩ := List.mem_filterMap.mp hx
  obtain ⟨c, hc, step⟩ := Option.map_eq_some_iff.mp hj
  cases c with
  | number y =>
    cases step
    exact h j x hc
  | var key => cases step
  | unary op a => cases step
  | binary op a b => cases step

theorem Numbers.push (h : f.Numbers P) {c : Cell} (hc : ∀ x, c = .number x → P x)
    {parents : Array (Option Nat)} :
    Numbers P { f with cells := f.cells.push c, parents } := by
  intro i x hi
  rw [Array.getElem?_push] at hi
  split at hi
  · exact hc x (Option.some.inj hi)
  · exact h i x hi

theorem Numbers.modify (h : f.Numbers P) (p : Nat) (old new : Nat) :
    Numbers P { f with cells := f.cells.modify p (Cell.refill old new) } := by
  intro i x hi
  rw [Array.getElem?_modify] at hi
  split at hi
  · obtain ⟨c, hc, refilled⟩ := Option.map_eq_some_iff.mp hi
    cases c with
    | number y =>
      cases refilled
      exact h i x hc
    | var key => cases refilled
    | unary op a =>
      rw [Cell.refill] at refilled
      split at refilled <;> cases refilled
    | binary op a b =>
      rw [Cell.refill] at refilled
      split at refilled
      · cases refilled
      · split at refilled <;> cases refilled
  · exact h i x hi

/-- Compaction puts numbers at other places. -/
theorem Numbers.compact (h : f.Numbers P) : f.compact.Numbers P := by
  intro i x hi
  unfold Forest.compact at hi
  cases root : f.root with
  | none => simp [root] at hi
  | some r =>
    simp only [root, List.getElem?_toArray] at hi
    obtain ⟨j, -, hj⟩ := List.mem_filterMap.mp (List.mem_of_getElem? hi)
    obtain ⟨c, hc, renumbered⟩ := Option.map_eq_some_iff.mp hj
    cases c with
    | number y =>
      cases renumbered
      exact h j x hc
    | var key => cases renumbered
    | unary op a => cases renumbered
    | binary op a b => cases renumbered

end Forest

/-- The numbers of a term, as a sweep meets them. -/
def Term.numbers {ν : Type} : Term ν → List Float
  | number x => [x]
  | var _ => []
  | unary _ t => t.numbers
  | binary _ s t => t.numbers ++ s.numbers

theorem Term.mem_numbers_of_mem_program {ν : Type} {t : Term ν} {x : Float}
    (h : .number x ∈ t.program) : x ∈ t.numbers := by
  induction t with
  | number y => simpa [numbers] using h
  | var n => simp at h
  | unary op t ih =>
    apply ih
    simpa using h
  | binary op s t ihs iht =>
    simp only [program_binary, List.mem_append, List.mem_singleton, reduceCtorEq, or_false] at h
    rcases h with h | h
    · exact List.mem_append_right _ (ihs h)
    · exact List.mem_append_left _ (iht h)

end Fluxion
