import Mathlib

/-!
# Packed numbers

A binary64 number is its fields, and rounding leaves alone what already has the format.
-/

namespace Fluxion

open Float.Model Float.Model.UnpackedFloat

theorem packComponents_unpack (b : BitVec Format.binary64.numBits) :
    packComponents Format.binary64 (Sign.ofBitVec (unpackSign b)) (unpackExponent b)
      (unpackMantissa b) = b := by
  have sign : ∀ c : BitVec 1, (Sign.ofBitVec c).toBitVec = c := by decide
  rw [packComponents, sign]
  apply BitVec.eq_of_getLsbD_eq
  intro i hi
  simp only [BitVec.getLsbD_append, unpackSign, unpackExponent, unpackMantissa,
    BitVec.getLsbD_cast, BitVec.getLsbD_extractLsb]
  by_cases low : i < 52
  · simp [low]
  · by_cases middle : i - 52 < 11
    · simp [low, middle, Nat.add_sub_cancel' (Nat.le_of_not_lt low)]
    · have last : i = 63 := by
        have : i < 64 := hi
        omega
      subst last
      simp only [low, middle, if_false, decide_false, Bool.false_and]
      rfl

theorem toNat_normal (a : BitVec 52) : (1#1 ++ a).toNat = 2 ^ 52 + a.toNat := by
  rw [BitVec.toNat_append, Nat.shiftLeft_eq, Nat.mul_comm]
  exact (Nat.two_pow_add_eq_or_of_lt a.isLt 1).symm

theorem log2_normal {m : Nat} (lower : 2 ^ 52 ≤ m) (upper : m < 2 ^ 53) : m.log2 = 52 := by
  rw [Nat.log2_eq_iff (by omega)]
  exact ⟨lower, upper⟩

theorem pack_subnormal (s : Sign) {m : Nat} (pos : 0 < m) (small : m < 2 ^ 52) :
    UnpackedFloat.pack Format.binary64 (.finite s m (-1074) pos) =
      packComponents Format.binary64 s 0#_ (BitVec.ofNat _ m) := by
  have short : m.log2 + 1 ≠ Format.binary64.mantissaBits := by
    have := (Nat.log2_lt (Nat.ne_of_gt pos)).mpr small
    have : Format.binary64.mantissaBits = 53 := rfl
    omega
  simp only [UnpackedFloat.pack]
  rw [if_neg (by decide), if_neg short]

theorem pack_normal (s : Sign) {m n : Nat} (pos : 0 < m) (lower : 2 ^ 52 ≤ m)
    (upper : m < 2 ^ 53) (fits : n < 2047) :
    UnpackedFloat.pack Format.binary64 (.finite s m ((n : Int) - 1075) pos) =
      packComponents Format.binary64 s (BitVec.ofNat _ n) (BitVec.ofNat _ m) := by
  have full : m.log2 + 1 = 53 := by rw [log2_normal lower upper]
  have biased : ((n : Int) - 1075 + (1023 : Nat) + (52 : Nat)).toNat = n := by omega
  simp only [UnpackedFloat.pack]
  change (if 2 ^ 11 ≤ ((n : Int) - 1075 + (1023 : Nat) + (52 : Nat)).toNat + 1 then _ else
    if m.log2 + 1 = 53 then packComponents Format.binary64 s
      (BitVec.ofNat _ ((n : Int) - 1075 + (1023 : Nat) + (52 : Nat)).toNat) _ else _) = _
  rw [biased, if_neg (by omega), if_pos full]

theorem pack_unpack_bits {b : BitVec Format.binary64.numBits} (valid : Format.binary64.Valid b) :
    UnpackedFloat.pack Format.binary64 (UnpackedFloat.unpack Format.binary64 b) = b := by
  have whole := packComponents_unpack b
  have small : (unpackMantissa b).toNat < 2 ^ 52 := (unpackMantissa b).isLt
  rw [UnpackedFloat.unpack]
  simp only
  split
  · next top =>
    split
    · next blank =>
      rw [top, blank] at whole
      exact whole
    · next payload => exact (valid.eq_packedNaN top payload).symm
  · next notTop =>
    split
    · next bottom =>
      split
      · next blank =>
        rw [bottom, blank] at whole
        exact whole
      · next payload =>
        rw [bottom] at whole ⊢
        refine (pack_subnormal _ _ small).trans ?_
        rw [BitVec.ofNat_toNat, BitVec.setWidth_eq]
        exact whole
    · next notBottom =>
      have fits : (unpackExponent b).toNat < 2047 := by
        have lt : (unpackExponent b).toNat < 2048 := (unpackExponent b).isLt
        have ne : (unpackExponent b).toNat ≠ 2047 := fun he =>
          notTop (BitVec.eq_of_toNat_eq he)
        omega
      have value := toNat_normal (unpackMantissa b)
      refine (pack_normal _ _ (by omega) (by omega) fits).trans ?_
      have mantissa : BitVec.ofNat 52 (1#1 ++ unpackMantissa b).toNat = unpackMantissa b := by
        apply BitVec.eq_of_toNat_eq
        rw [BitVec.toNat_ofNat, value, Nat.add_mod_left]
        exact Nat.mod_eq_of_lt small
      rw [BitVec.ofNat_toNat, BitVec.setWidth_eq, mantissa]
      exact whole

theorem pack_unpack (x : Float.Model) : Float.Model.pack x.unpack = x := by
  obtain ⟨⟨b⟩, valid⟩ := x
  have bits := pack_unpack_bits valid
  simp only [Float.Model.pack, Float.Model.unpack, bits]

/-! ### Rounding -/

/-- A mantissa and an exponent in the form that the format wants. -/
structure Canonical (m : Nat) (e : Int) : Prop where
  lt : m < 2 ^ 53
  full : 2 ^ 52 ≤ m ∨ e = -1074
  least : -1074 ≤ e

theorem canonical_unpack {b : BitVec Format.binary64.numBits} {s : Sign} {m : Nat} {e : Int}
    {pos : 0 < m} (h : UnpackedFloat.unpack Format.binary64 b = .finite s m e pos) :
    Canonical m e := by
  have small : (unpackMantissa b).toNat < 2 ^ 52 := (unpackMantissa b).isLt
  have bias : ((Format.binary64.exponentBias : Int) + (52 : Nat)) = 1075 := rfl
  rw [UnpackedFloat.unpack] at h
  simp only at h
  split at h
  · split at h <;> simp at h
  · split at h
    · next bottom =>
      split at h
      · simp at h
      · simp only [UnpackedFloat.finite.injEq, bottom] at h
        obtain ⟨-, rfl, rfl⟩ := h
        exact ⟨by omega, Or.inr rfl, by decide⟩
    · next notBottom =>
      have ne : (unpackExponent b).toNat ≠ 0 := fun he =>
        notBottom (BitVec.eq_of_toNat_eq he)
      have value := toNat_normal (unpackMantissa b)
      simp only [UnpackedFloat.finite.injEq] at h
      obtain ⟨-, rfl, rfl⟩ := h
      rw [bias]
      exact ⟨by omega, Or.inl (by omega), by omega⟩

theorem targetExponent_eq (t : Int) :
    Format.binary64.targetExponent t = max (t - 53) (-1074) := by
  simp only [Format.targetExponent]
  rfl

theorem log2_mul_two_pow {m : Nat} (pos : 0 < m) (j : Nat) : (m * 2 ^ j).log2 = m.log2 + j := by
  have ne : m * 2 ^ j ≠ 0 := Nat.ne_of_gt (Nat.mul_pos pos (Nat.two_pow_pos j))
  rw [Nat.log2_eq_iff ne, pow_add, pow_add, pow_add]
  obtain ⟨lower, upper⟩ := (Nat.log2_eq_iff (Nat.ne_of_gt pos)).mp rfl
  rw [pow_succ] at upper
  constructor
  · exact Nat.mul_le_mul_right _ lower
  · rw [Nat.mul_right_comm]
    exact Nat.mul_lt_mul_of_pos_right upper (Nat.two_pow_pos j)

namespace Canonical

variable {m : Nat} {e : Int}

theorem target (h : Canonical m e) (pos : 0 < m) (j : Nat) :
    Format.binary64.targetExponent (totalExponent (m * 2 ^ j) (e - j)) = e := by
  obtain ⟨lt, full, least⟩ := h
  rw [targetExponent_eq, totalExponent, log2_mul_two_pow pos]
  have short : m.log2 < 53 := (Nat.log2_lt (Nat.ne_of_gt pos)).mpr lt
  rcases full with full | rfl
  · have : m.log2 = 52 := log2_normal full lt
    omega
  · omega

end Canonical

theorem shiftRight_exact (m i j : Nat) :
    (⟨m * 2 ^ (i + j), false, false⟩ : ExtendedMantissa) >>> j = ⟨m * 2 ^ i, false, false⟩ := by
  induction j generalizing i with
  | zero => rfl
  | succ j ih =>
    have step := ih (i + 1)
    have double : m * 2 ^ (i + 1) = m * 2 ^ i * 2 := by ring
    rw [Nat.add_right_comm] at step
    change ExtendedMantissa.shiftRightOne
      ((⟨m * 2 ^ (i + (j + 1)), false, false⟩ : ExtendedMantissa) >>> j) = _
    rw [← Nat.add_assoc, step, ExtendedMantissa.shiftRightOne, double]
    simp

/-- Rounding takes back a shift to the left. -/
theorem roundWithAccuracy_shifted (s : Sign) {m : Nat} {e : Int} (pos : 0 < m)
    (canonical : Canonical m e) (j : Nat) :
    roundWithAccuracy Format.binary64 s (m * 2 ^ j) (e - j) .exact = .finite s m e pos := by
  have shifted (j : Nat) : shiftToTargetExponent Format.binary64 (m * 2 ^ j) (e - j) .exact =
      (⟨m, false, false⟩, e) := by
    have amount : (e - (e - (j : Int))).toNat = j := by omega
    have shift := shiftRight_exact m 0 j
    rw [Nat.zero_add, pow_zero, Nat.mul_one] at shift
    rw [shiftToTargetExponent, canonical.target pos, shiftToExponent, amount]
    refine Prod.ext shift ?_
    simp
  have again := shifted 0
  simp only [pow_zero, Nat.mul_one, Nat.cast_zero, Int.sub_zero] at again
  have rounded : (⟨m, false, false⟩ : ExtendedMantissa).roundedMantissa = m := rfl
  simp only [roundWithAccuracy, shifted, rounded, again]
  rw [dif_neg (Nat.ne_of_gt pos)]

end Fluxion
