import Fluxion.Proofs.Arithmetic.Zero

/-!
# Equality of numbers

Comparison takes the two zeros for equal and NaN for equal to nothing. All other numbers are equal
to themselves alone.
-/

namespace Fluxion

open Float.Model Float.Model.UnpackedFloat

/-! ### Comparison of fields -/

theorem compare_infinity (s s' : Sign) : compare s s' = .eq ↔ s = s' := by
  cases s <;> cases s'
  · exact iff_of_true rfl rfl
  · exact iff_of_false nofun nofun
  · exact iff_of_false nofun nofun
  · exact iff_of_true rfl rfl

theorem compare_eq_iff {u v : UnpackedFloat} : u.compare v = some .eq ↔
    u.isNaN = false ∧ (u = v ∨ (∃ s, u = .zero s) ∧ ∃ s, v = .zero s) := by
  cases u with
  | notANumber => simp [UnpackedFloat.compare, UnpackedFloat.isNaN]
  | infinity s =>
    cases v with
    | infinity s' => simp [UnpackedFloat.compare, UnpackedFloat.isNaN, compare_infinity]
    | notANumber => simp [UnpackedFloat.compare]
    | zero s' => cases s <;> simp [UnpackedFloat.compare]
    | finite s' m e pos => cases s <;> simp [UnpackedFloat.compare]
  | zero s =>
    cases v with
    | infinity s' => cases s' <;> simp [UnpackedFloat.compare]
    | notANumber => simp [UnpackedFloat.compare]
    | zero s' => simp [UnpackedFloat.compare, UnpackedFloat.isNaN]
    | finite s' m e pos => cases s' <;> simp [UnpackedFloat.compare]
  | finite s m e pos =>
    cases v with
    | infinity s' => cases s <;> cases s' <;> simp [UnpackedFloat.compare]
    | notANumber => simp [UnpackedFloat.compare]
    | zero s' => cases s <;> simp [UnpackedFloat.compare]
    | finite s' m' e' pos' =>
      cases s <;> cases s' <;>
        simp [UnpackedFloat.compare, UnpackedFloat.isNaN, Ordering.then_eq_eq, and_comm]

/-! ### Comparison of numbers -/

variable {x y z : Float}

theorem beq_iff_agree : (x == y) = true ↔ x.isNaN = false ∧ Agree x y := by
  have same : x = y ↔ x.toModel.unpack = y.toModel.unpack := by
    constructor
    · rintro rfl
      rfl
    · intro h
      rw [← ofModel_pack_unpack x, h, ofModel_pack_unpack]
  change (x.toModel.unpack.compare y.toModel.unpack == some .eq) = true ↔ _
  rw [beq_iff_eq, compare_eq_iff, Agree, isZero_iff, isZero_iff, same]
  rfl

theorem beq_self_iff : (x == x) = true ↔ x.isNaN = false := by
  rw [beq_iff_agree]
  exact and_iff_left (.refl x)

/-- No zero is NaN, so numbers that agree are NaN together. -/
theorem Agree.isNaN_eq (h : Agree x y) : x.isNaN = y.isNaN :=
  h.test rfl

theorem beq_symm_of_float (h : (x == y) = true) : (y == x) = true := by
  rw [beq_iff_agree] at h ⊢
  exact ⟨h.2.isNaN_eq ▸ h.1, h.2.symm⟩

theorem beq_trans_of_float (h : (x == y) = true) (h' : (y == z) = true) : (x == z) = true := by
  rw [beq_iff_agree] at h h' ⊢
  exact ⟨h.1, h.2.trans h'.2⟩

end Fluxion
