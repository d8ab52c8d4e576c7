import Fluxion.Derivative.Recipe
import Fluxion.Registry
import Fluxion.Term
import Mathlib.Data.List.Perm.Basic

/-!
# The derivative of a term

What differentiation makes of an expression, as recursion on its term. A recipe consumes
the derivative of an operand once if it uses it, and otherwise not at all.
-/

namespace Fluxion

theorem map_onSides {α β : Type} (f : α → β) (a b : α) (side : Side) :
    f (onSides a b side) = onSides (f a) (f b) side := by
  cases side <;> rfl

namespace Recipe

variable {ν : Type}

/-- The term that the recipe describes. -/
def term (operand slope : Side → Term ν) : Recipe → Term ν
  | number x => .number x
  | .operand side => operand side
  | .slope side => slope side
  | unary op r => .unary op (r.term operand slope)
  | binary op r s | rightFirst op r s =>
    .binary op (r.term operand slope) (s.term operand slope)

/-- The derivatives that the recipe consumes, as they occur from left to right. -/
def slopes : Recipe → List Side
  | number _ | operand _ => []
  | slope side => [side]
  | unary _ r => r.slopes
  | binary _ r s | rightFirst _ r s => r.slopes ++ s.slopes

/-- The numbers that the recipe brings in. -/
def numbers : Recipe → List Float
  | number x => [x]
  | operand _ | slope _ => []
  | unary _ r => r.numbers
  | binary _ r s | rightFirst _ r s => r.numbers ++ s.numbers

theorem term_congr {operand slope slope' : Side → Term ν} (r : Recipe)
    (same : ∀ side ∈ r.slopes, slope side = slope' side) :
    r.term operand slope = r.term operand slope' := by
  induction r with
  | number x => rfl
  | operand side => rfl
  | slope side => exact same side (by simp [slopes])
  | unary op r ih => rw [term, term, ih same]
  | binary op r s ihr ihs =>
    rw [term, term, ihr fun side h => same side (List.mem_append_left _ h),
      ihs fun side h => same side (List.mem_append_right _ h)]
  | rightFirst op r s ihr ihs =>
    rw [term, term, ihr fun side h => same side (List.mem_append_left _ h),
      ihs fun side h => same side (List.mem_append_right _ h)]

theorem names_term_subset {operand slope : Side → Term ν} {names : List ν} (r : Recipe)
    (operands : ∀ side, (operand side).names ⊆ names)
    (slopes : ∀ side, (slope side).names ⊆ names) : (r.term operand slope).names ⊆ names := by
  induction r with
  | number x => exact List.nil_subset _
  | operand side => exact operands side
  | slope side => exact slopes side
  | unary op r ih => exact ih
  | binary op r s ihr ihs => exact List.append_subset.mpr ⟨ihr, ihs⟩
  | rightFirst op r s ihr ihs => exact List.append_subset.mpr ⟨ihr, ihs⟩

end Recipe

namespace Term

def dependsOn (key : Key) : Term Key → Bool
  | number _ => false
  | var k => k == key
  | unary _ t => t.dependsOn key
  | binary _ s t => s.dependsOn key || t.dependsOn key

def derivative (key : Key) : Term Key → Term Key
  | number _ => number 0
  | var k => number (if k = key then 1 else 0)
  | unary op t => op.recipe.term (fun _ => t) fun _ => t.derivative key
  | binary op s t =>
    (op.recipe (s.dependsOn key) (t.dependsOn key)).term (onSides s t)
      (onSides (s.derivative key) (t.derivative key))

/-- A derivative brings in no variable. -/
theorem names_derivative_subset (key : Key) (t : Term Key) :
    (t.derivative key).names ⊆ t.names := by
  induction t with
  | number x => exact List.nil_subset _
  | var k => exact List.nil_subset _
  | unary op t ih => exact op.recipe.names_term_subset (fun _ => List.Subset.refl _) fun _ => ih
  | binary op s t ihs iht =>
    have left := List.subset_append_left s.names t.names
    have right := List.subset_append_right s.names t.names
    apply Recipe.names_term_subset
    · rintro ⟨⟩
      · exact left
      · exact right
    · rintro ⟨⟩
      · exact List.Subset.trans ihs left
      · exact List.Subset.trans iht right

end Term

theorem Unary.slopes_recipe (op : Unary) : op.recipe.slopes = [.left] := by
  cases op <;> rfl

theorem Binary.slopes_recipe (op : Binary) (onLeft onRight : Bool) :
    (op.recipe onLeft onRight).slopes.Perm
      ((if op.uses onLeft onRight .right then [.right] else []) ++
        if op.uses onLeft onRight .left then [.left] else []) := by
  cases op <;> cases onLeft <;> cases onRight <;> decide

theorem Binary.mem_slopes_iff {op : Binary} {onLeft onRight : Bool} {side : Side} :
    side ∈ (op.recipe onLeft onRight).slopes ↔ op.uses onLeft onRight side = true := by
  rw [(op.slopes_recipe onLeft onRight).mem_iff]
  cases side <;> cases op.uses onLeft onRight .left <;> cases op.uses onLeft onRight .right <;>
    simp

theorem Binary.nodup_slopes (op : Binary) (onLeft onRight : Bool) :
    (op.recipe onLeft onRight).slopes.Nodup := by
  rw [(op.slopes_recipe onLeft onRight).nodup_iff]
  split <;> split <;> decide

end Fluxion
