import Fluxion.Decimal.Reading
import Fluxion.Proofs.Arithmetic.Naturals
import Fluxion.Proofs.Arithmetic.Signals

/-!
# Ordinary numbers

A number is ordinary if it is finite and not subnormal. Operations on ordinary numbers that
raise no signal give ordinary numbers, and so do digits that denote a finite number.
-/

namespace Fluxion

open Float.Model Float.Model.UnpackedFloat

def Ordinary (x : Float) : Prop := x.isFinite = true ∧ isSubnormal x = false

instance (x : Float) : Decidable (Ordinary x) :=
  inferInstanceAs (Decidable (x.isFinite = true ∧ isSubnormal x = false))

theorem Agree.ordinary {x y : Float} (h : Agree x y) (hx : Ordinary x) : Ordinary y := by
  rcases h with rfl | ⟨-, rfl | rfl⟩
  · exact hx
  · decide
  · decide

/-! ### Subnormal numbers -/

/-- What a mask leaves of the bits of a number are its last 63. -/
theorem toNat_magnitude (b : UInt64) : (b &&& 0x7FFFFFFFFFFFFFFF).toNat = b.toNat % 2 ^ 63 := by
  rw [UInt64.toNat_and]
  exact Nat.and_two_pow_sub_one_eq_mod b.toNat 63

/-- The mantissa of a subnormal number has less than 53 bits. -/
theorem lt_of_isSubnormal {x : Float} {s : Sign} {m : Nat} {e : Int} {pos : 0 < m}
    (h : isSubnormal x = true) (fields : x.toModel.unpack = .finite s m e pos) :
    m < 2 ^ 52 := by
  have small : x.toModel.toBits.toNat % 2 ^ 63 < 2 ^ 52 := by
    simp only [isSubnormal, Bool.and_eq_true, decide_eq_true_eq] at h
    have lt := UInt64.lt_iff_toNat_lt.mp h.2
    rw [toNat_magnitude] at lt
    exact lt
  have bottom : @unpackExponent Format.binary64 x.toModel.toBits.toBitVec = 0#_ := by
    apply BitVec.eq_of_toNat_eq
    simp only [unpackExponent, BitVec.toNat_cast, BitVec.extractLsb_toNat]
    change x.toModel.toBits.toNat >>> 52 % 2 ^ 11 = 0
    rw [Nat.shiftRight_eq_div_pow]
    omega
  change UnpackedFloat.unpack Format.binary64 x.toModel.toBits.toBitVec = _ at fields
  rw [UnpackedFloat.unpack] at fields
  simp only at fields
  rw [if_neg (by rw [bottom]; decide), if_pos bottom] at fields
  split at fields
  · cases fields
  · simp only [UnpackedFloat.finite.injEq] at fields
    obtain ⟨-, rfl, -⟩ := fields
    exact (@unpackMantissa Format.binary64 x.toModel.toBits.toBitVec).isLt

/-! ### Natural numbers -/

theorem Reaches.ordinary {x : Float} {e : Int} (h : Reaches x e) (finite : x.isFinite = true) :
    Ordinary x := by
  refine ⟨finite, ?_⟩
  rcases h with infinite | ⟨m, e', pos, fields, full, -⟩
  · change x.toModel.unpack.isFinite = true at finite
    rw [infinite] at finite
    cases finite
  · by_contra subnormal
    have short := lt_of_isSubnormal (Bool.eq_true_of_not_eq_false subnormal) fields
    have long := full.le
    omega

theorem ordinary_ofNat {n : Nat} (finite : (Float.ofNat n).isFinite = true) :
    Ordinary (Float.ofNat n) := by
  by_cases large : 2 ≤ n
  · exact (reaches_ofNat large).ordinary finite
  · obtain rfl | rfl : n = 0 ∨ n = 1 := by omega
    · decide
    · decide

/-- The value of a decimal without a fraction is that of its digits. -/
theorem Decimal.toFloat_natural (n : Nat) : Decimal.toFloat ⟨n, 0⟩ = Float.ofNat n := by
  by_cases zero : n = 0
  · subst zero
    rfl
  · have most : ¬ (310 : Int) < 0 := by decide
    have least : ¬ (0 : Int) < -(400 + n.log2 : Int) := by omega
    rw [Decimal.toFloat, if_neg zero, if_neg most, if_neg least]
    rfl

/-! ### Judged operations -/

theorem isSubnormal_of_signal?_eq_none {xs : List Float} {pole vanishes : Bool} {r : Float}
    (finite : r.isFinite = true) (h : signal? xs pole vanishes r = none) :
    isSubnormal r = false := by
  by_contra subnormal
  simp only [signal?, isNaN_of_isFinite finite, isInf_of_isFinite finite,
    Bool.eq_true_of_not_eq_false subnormal, Bool.false_eq_true, if_false, if_true] at h
  cases h

/-- An ordinary result raises no signal, unless it is a zero and should not have vanished. -/
theorem signal?_eq_none {xs : List Float} {pole vanishes : Bool} {r : Float} (hr : Ordinary r)
    (h : IsZero r → vanishes = false) : signal? xs pole vanishes r = none := by
  obtain ⟨finite, normal⟩ := hr
  simp only [signal?, isNaN_of_isFinite finite, isInf_of_isFinite finite, normal,
    Bool.false_eq_true, if_false]
  by_cases zero : (r == 0) = true
  · simp [h (isZero_of_beq zero)]
  · simp [zero]

variable [Elementary] {x y v : Float}

theorem Unary.ordinary_apply {op : Unary} (hx : x.isFinite = true) (h : op.apply x = .ok v) :
    Ordinary v := by
  have finite := Unary.isFinite_apply hx h
  obtain ⟨quiet, rfl⟩ := Unary.apply_eq_ok.mp h
  exact ⟨finite, isSubnormal_of_signal?_eq_none finite quiet⟩

theorem Binary.ordinary_apply {op : Binary} (hx : x.isFinite = true) (hy : y.isFinite = true)
    (h : op.apply x y = .ok v) : Ordinary v := by
  have finite := Binary.isFinite_apply hx hy h
  obtain ⟨quiet, rfl⟩ := Binary.apply_eq_ok.mp h
  exact ⟨finite, isSubnormal_of_signal?_eq_none finite quiet⟩

end Fluxion
