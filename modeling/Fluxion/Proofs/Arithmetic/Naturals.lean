import Fluxion.Proofs.Arithmetic.Zero
import Fluxion.Simplification

/-!
# Natural numbers

A natural number is rounded when it becomes a number of the machine. Rounding does not take
the first bit of a number away, so that every natural number from 2 on stays 2 or more, and
is far from 0 and from 1. Simplification mistakes it for neither.
-/

namespace Fluxion

open Float.Model Float.Model.UnpackedFloat

/-! ### Rounding a long mantissa -/

/-- The 53 bits of a number that is not subnormal. -/
structure Full (m : Nat) : Prop where
  le : 2 ^ 52 ≤ m
  lt : m < 2 ^ 53

theorem mantissa_shiftRight (em : ExtendedMantissa) (j : Nat) :
    (em >>> j).mantissa = em.mantissa / 2 ^ j := by
  induction j with
  | zero => simp [HShiftRight.hShiftRight, Nat.repeat]
  | succ j ih =>
    change (em >>> j).mantissa / 2 = _
    rw [ih, Nat.div_div_eq_div_mul, pow_succ]

/-- Rounding goes up by one at most, and never down. -/
theorem roundedMantissa_bounds (em : ExtendedMantissa) :
    em.mantissa ≤ em.roundedMantissa ∧ em.roundedMantissa ≤ em.mantissa + 1 := by
  obtain ⟨m, r, s⟩ := em
  cases r <;> cases s <;>
    simp only [ExtendedMantissa.roundedMantissa, ExtendedMantissa.accuracy,
      Accuracy.roundToNearestEven] <;> omega

theorem full_shifted {m : Nat} (long : 52 ≤ m.log2) : Full (m / 2 ^ (m.log2 - 52)) := by
  have nonzero : m ≠ 0 := by
    rintro rfl
    simp at long
  obtain ⟨lower, upper⟩ := (Nat.log2_eq_iff nonzero).mp rfl
  constructor
  · rw [Nat.le_div_iff_mul_le (Nat.two_pow_pos _), ← pow_add]
    have : 52 + (m.log2 - 52) = m.log2 := by omega
    rw [this]
    exact lower
  · rw [Nat.div_lt_iff_lt_mul (Nat.two_pow_pos _), ← pow_add]
    have : 53 + (m.log2 - 52) = m.log2 + 1 := by omega
    rw [this]
    exact upper

/-- A mantissa of 53 bits or more is shifted until 53 of them are left. -/
theorem shiftToTargetExponent_long {m : Nat} {e : Int} (acc : Accuracy) (long : 52 ≤ m.log2)
    (normal : -1074 ≤ m.log2 - 52 + e) :
    Full (shiftToTargetExponent Format.binary64 m e acc).1.mantissa ∧
      (shiftToTargetExponent Format.binary64 m e acc).2 = m.log2 - 52 + e := by
  have target : Format.binary64.targetExponent (totalExponent m e) = m.log2 - 52 + e := by
    rw [targetExponent_eq, totalExponent]
    omega
  have amount : ((m.log2 - 52 + e : Int) - e).toNat = m.log2 - 52 := by omega
  have mantissa : (ExtendedMantissa.ofMantissaAndAccuracy m acc).mantissa = m := by
    cases acc with
    | exact => rfl
    | inexact o => cases o <;> rfl
  rw [shiftToTargetExponent, target, shiftToExponent, amount]
  simp only [mantissa_shiftRight, mantissa]
  exact ⟨full_shifted long, by omega⟩

/-- Rounding leaves the first bit of a number where it is, or carries it up by one. -/
theorem roundWithAccuracy_long (s : Sign) {m : Nat} {e : Int} (acc : Accuracy)
    (long : 52 ≤ m.log2) (normal : -1074 ≤ m.log2 - 52 + e) :
    ∃ m' e' pos, roundWithAccuracy Format.binary64 s m e acc = .finite s m' e' pos ∧ Full m' ∧
      m.log2 - 52 + e ≤ e' ∧ e' ≤ m.log2 - 51 + e := by
  obtain ⟨em, t, first⟩ : ∃ em t, shiftToTargetExponent Format.binary64 m e acc = (em, t) :=
    ⟨_, _, rfl⟩
  obtain ⟨full, exponent⟩ := shiftToTargetExponent_long acc long normal
  rw [first] at full exponent
  simp only at full exponent
  obtain ⟨lower, upper⟩ := roundedMantissa_bounds em
  have bounds := full.le
  have further : 52 ≤ em.roundedMantissa.log2 := by
    rw [Nat.le_log2 (by omega)]
    omega
  have carried : em.roundedMantissa.log2 < 54 := by
    have := full.lt
    rw [Nat.log2_lt (by omega)]
    omega
  -- A carry into a further bit is shifted out again, and nothing is rounded then.
  obtain ⟨em', t', second⟩ :
      ∃ em' t', shiftToTargetExponent Format.binary64 em.roundedMantissa t .exact = (em', t') :=
    ⟨_, _, rfl⟩
  obtain ⟨full', exponent'⟩ := shiftToTargetExponent_long (e := t) .exact further (by omega)
  rw [second] at full' exponent'
  simp only at full' exponent'
  have pos : 0 < em'.mantissa := Nat.lt_of_lt_of_le (by decide) full'.le
  refine ⟨em'.mantissa, t', pos, ?_, full', by omega, by omega⟩
  simp only [roundWithAccuracy, first, second]
  rw [dif_neg (Nat.ne_of_gt pos)]

theorem round_large (s : Sign) {m : Nat} {e : Int} (pos : 0 < m) (large : 0 ≤ m.log2 + e) :
    ∃ m' e' pos, UnpackedFloat.round Format.binary64 s m e = .finite s m' e' pos ∧ Full m' ∧
      m.log2 - 52 + e ≤ e' ∧ e' ≤ m.log2 - 51 + e := by
  obtain ⟨j, amount⟩ : ∃ j, (e - Format.binary64.targetExponent (totalExponent m e)).toNat = j :=
    ⟨_, rfl⟩
  have size : (m <<< j).log2 = m.log2 + j := by
    rw [Nat.shiftLeft_eq, log2_mul_two_pow pos]
  rw [targetExponent_eq, totalExponent] at amount
  have long : 52 ≤ (m <<< j).log2 := by omega
  obtain ⟨m', e', pos', rounded, full, lower, upper⟩ :=
    roundWithAccuracy_long s .exact (e := e - j) long (by omega)
  refine ⟨m', e', pos', ?_, full, by omega, by omega⟩
  rw [UnpackedFloat.round, decreaseExponent, targetExponent_eq, totalExponent, amount]
  exact rounded

theorem normalize_natCast {n : Nat} (e : Int) (pos : 0 < n) :
    normalize Format.binary64 (n : Int) e .positive =
      UnpackedFloat.round Format.binary64 .positive n e := by
  have positive : compare (n : Int) 0 = .gt := by
    rw [compare_gt_iff_gt]
    omega
  rw [UnpackedFloat.normalize, positive]
  rfl

/-! ### Numbers of some size -/

/-- At least `2 ^ (e + 52)`, and perhaps infinite. -/
def Reaches (x : Float) (e : Int) : Prop :=
  x.toModel.unpack = .infinity .positive ∨
    ∃ m e' pos, x.toModel.unpack = .finite .positive m e' pos ∧ Full m ∧ e ≤ e'

theorem unpackSign_packComponents (s : Sign) (e : BitVec Format.binary64.exponentBits)
    (m : BitVec Format.binary64.mantissaBitsWithoutImplicit) :
    unpackSign (packComponents Format.binary64 s e m) = s.toBitVec := by
  apply BitVec.eq_of_getLsbD_eq
  intro i hi
  have first : i = 0 := by omega
  subst first
  simp only [unpackSign, packComponents, BitVec.getLsbD_cast, BitVec.getLsbD_extractLsb]
  change (true && (s.toBitVec ++ e ++ m).getLsbD 63) = _
  rw [BitVec.getLsbD_append, BitVec.getLsbD_append]
  rfl

theorem unpack_pack_full {m : Nat} {e : Int} (pos : 0 < m) (full : Full m) (least : -1074 ≤ e)
    (fits : e < 972) :
    (Float.Model.pack (.finite .positive m e pos)).unpack = .finite .positive m e pos := by
  obtain ⟨n, rfl⟩ : ∃ n : Nat, e = (n : Int) - 1075 := ⟨(e + 1075).toNat, by omega⟩
  change UnpackedFloat.unpack Format.binary64 (UnpackedFloat.pack Format.binary64 _) = _
  rw [pack_normal _ pos full.le full.lt (by omega)]
  have biased : (BitVec.ofNat Format.binary64.exponentBits n).toNat = n := by
    rw [BitVec.toNat_ofNat]
    exact Nat.mod_eq_of_lt (by change n < 2048; omega)
  have notTop : BitVec.ofNat Format.binary64.exponentBits n ≠ -1#_ := by
    intro he
    have := congrArg BitVec.toNat he
    rw [biased] at this
    change n = 2047 at this
    omega
  have notBottom : BitVec.ofNat Format.binary64.exponentBits n ≠ 0#_ := by
    intro he
    have := congrArg BitVec.toNat he
    rw [biased] at this
    change n = 0 at this
    omega
  have mantissa : (1#1 ++ BitVec.ofNat 52 m).toNat = m := by
    have le := full.le
    have lt := full.lt
    rw [toNat_normal, BitVec.toNat_ofNat]
    omega
  simp only [UnpackedFloat.unpack, unpackMantissa_packComponents, unpackExponent_packComponents,
    unpackSign_packComponents, notTop, notBottom, if_false, biased]
  change finite .positive (1#1 ++ BitVec.ofNat 52 m).toNat ((n : Int) - 1075) _ = _
  simp only [mantissa]

theorem reaches_pack {m : Nat} {e e' : Int} {pos : 0 < m} (full : Full m) (least : -1074 ≤ e')
    (le : e ≤ e') : Reaches (Float.ofModel (Float.Model.pack (.finite .positive m e' pos))) e := by
  by_cases fits : e' < 972
  · exact Or.inr ⟨m, e', pos, unpack_pack_full pos full least fits, full, le⟩
  · refine Or.inl ?_
    have infinite : UnpackedFloat.pack Format.binary64 (.finite .positive m e' pos) =
        packedInfinity Format.binary64 .positive := by
      simp only [UnpackedFloat.pack]
      rw [if_pos]
      change 2 ^ 11 ≤ (e' + (1023 : Nat) + (52 : Nat)).toNat + 1
      omega
    change UnpackedFloat.unpack Format.binary64 (UnpackedFloat.pack Format.binary64 _) = _
    rw [infinite]
    rfl

/-! ### Fields of results -/

theorem exists_fields_sub_one {m : Nat} {i : Int} (pos : 0 < m) (full : Full m) (le : -51 ≤ i) :
    ∃ m' e' pos', UnpackedFloat.sub Format.binary64 (.finite .positive m i pos)
        (.finite .positive (2 ^ 52) (-52) (by decide)) = .finite .positive m' e' pos' ∧
      Full m' ∧ -52 ≤ e' := by
  have least : min i (-52) = -52 := by omega
  obtain ⟨j, amount⟩ : ∃ j, (i - -52).toNat = j + 1 := ⟨(i - -52).toNat - 1, by omega⟩
  have bound := full.le
  have grown : m <<< (j + 1) = m * 2 ^ j * 2 := by rw [Nat.shiftLeft_eq, pow_succ, mul_assoc]
  have more : m * 1 ≤ m * 2 ^ j := Nat.mul_le_mul_left m (Nat.one_le_two_pow)
  have difference : Sign.positive.apply ((m <<< (j + 1) : Nat) : Int) -
      Sign.positive.apply ((2 ^ 52 <<< 0 : Nat) : Int) =
        ((m * 2 ^ j * 2 - 2 ^ 52 : Nat) : Int) := by
    simp only [Sign.apply, grown]
    omega
  have size : 52 ≤ (m * 2 ^ j * 2 - 2 ^ 52).log2 := by
    rw [Nat.le_log2 (by omega)]
    omega
  obtain ⟨m', e', pos', rounded, full', lower, -⟩ :=
    round_large .positive (m := m * 2 ^ j * 2 - 2 ^ 52) (e := -52) (by omega) (by omega)
  refine ⟨m', e', pos', ?_, full', by omega⟩
  simp only [UnpackedFloat.sub, decreaseExponent, least, amount]
  change normalize Format.binary64 (Sign.positive.apply ((m <<< (j + 1) : Nat) : Int) -
    Sign.positive.apply ((2 ^ 52 <<< 0 : Nat) : Int)) (-52) .positive = _
  rw [difference, normalize_natCast _ (by omega)]
  exact rounded

theorem exists_fields_mul {m m' : Nat} {i i' : Int} (pos : 0 < m) (pos' : 0 < m') (full : Full m)
    (full' : Full m') (le : -52 ≤ i) (le' : -52 ≤ i') :
    ∃ p e pos'', UnpackedFloat.mul Format.binary64 (.finite .positive m i pos)
        (.finite .positive m' i' pos') = .finite .positive p e pos'' ∧ Full p ∧ -52 ≤ e := by
  have long : 104 ≤ (m * m').log2 := by
    rw [Nat.le_log2 (Nat.ne_of_gt (Nat.mul_pos pos pos'))]
    calc 2 ^ 104 = 2 ^ 52 * 2 ^ 52 := by rfl
      _ ≤ m * m' := Nat.mul_le_mul full.le full'.le
  obtain ⟨p, e, pos'', rounded, full'', lower, -⟩ :=
    roundWithAccuracy_long .positive (m := m * m') (e := i + i') .exact (by omega) (by omega)
  exact ⟨p, e, pos'', rounded, full'', by omega⟩

namespace Reaches

variable {x : Float} {e : Int}

theorem mono (h : Reaches x e) {e' : Int} (le : e' ≤ e) : Reaches x e' := by
  rcases h with h | ⟨m, i, pos, h, full, lower⟩
  · exact Or.inl h
  · exact Or.inr ⟨m, i, pos, h, full, le.trans lower⟩

theorem sub_zero (h : Reaches x e) : x - 0 = x := by
  apply ofModel_pack_eq
  rcases h with h | ⟨m, i, pos, h, -⟩ <;> rw [h] <;> rfl

theorem abs (h : Reaches x e) : x.abs = x := by
  apply ofModel_pack_eq
  rcases h with h | ⟨m, i, pos, h, -⟩ <;> rw [h] <;> rfl

theorem mul_one (h : Reaches x e) : x * 1 = x := by
  rcases h with h | ⟨m, i, pos, h, -⟩
  · apply ofModel_pack_eq
    rw [h]
    rfl
  · apply mul_one_of_finite
    change x.toModel.unpack.isFinite = true
    rw [h]
    rfl

/-- A number from 2 on, less 1, is 1 or more. -/
theorem sub_one (h : Reaches x (-51)) : Reaches (x - 1) (-52) := by
  change Reaches (Float.ofModel (Float.Model.pack (UnpackedFloat.sub Format.binary64
    x.toModel.unpack (1 : Float).toModel.unpack))) _
  rw [unpack_one]
  rcases h with h | ⟨m, i, pos, h, full, le⟩
  · rw [h]
    exact Or.inl rfl
  · obtain ⟨m', e', pos', difference, full', lower⟩ := exists_fields_sub_one pos full le
    rw [h, difference]
    exact reaches_pack full' (by omega) lower

/-- The product of numbers that are 1 or more is 1 or more. -/
theorem mul {y : Float} (hx : Reaches x (-52)) (hy : Reaches y (-52)) :
    Reaches (x * y) (-52) := by
  change Reaches (Float.ofModel (Float.Model.pack (UnpackedFloat.mul Format.binary64
    x.toModel.unpack y.toModel.unpack))) _
  have infinite {u : UnpackedFloat} (h : u = .infinity .positive) :
      Reaches (Float.ofModel (Float.Model.pack u)) (-52) := by
    rw [h]
    exact Or.inl rfl
  rcases hx with hx | ⟨m, i, pos, hx, full, le⟩
  · rw [hx]
    rcases hy with hy | ⟨m', i', pos', hy, -⟩
    · rw [hy]
      exact infinite rfl
    · rw [hy]
      exact infinite rfl
  · rw [hx]
    rcases hy with hy | ⟨m', i', pos', hy, full', le'⟩
    · rw [hy]
      exact infinite rfl
    · obtain ⟨p, e', pos'', product, full'', lower⟩ :=
        exists_fields_mul pos pos' full full' le le'
      rw [hy, product]
      exact reaches_pack full'' (by omega) lower

/-- A quotient by a number that is infinite is zero. -/
theorem isFinite_or_isZero_div {v : Float} (fv : v.isFinite = true) (h : Reaches x e) :
    x.isFinite = true ∨ IsZero (v / x) := by
  rcases h with h | ⟨m, i, pos, h, -⟩
  · refine Or.inr ?_
    change IsZero (Float.ofModel (Float.Model.pack (UnpackedFloat.div Format.binary64
      v.toModel.unpack x.toModel.unpack)))
    rw [h]
    have zero {u : UnpackedFloat} {s : Sign} (h : u = .zero s) :
        IsZero (Float.ofModel (Float.Model.pack u)) := by
      rw [h]
      exact isZero_pack s
    rcases finite_cases fv with hv | ⟨s, m, i, pos, hv, -⟩
    · obtain ⟨s, hs⟩ := isZero_iff.mp hv
      rw [hs]
      exact zero rfl
    · rw [hv]
      exact zero rfl
  · refine Or.inl ?_
    change x.toModel.unpack.isFinite = true
    rw [h]
    rfl

theorem not_lt_tolerance (h : Reaches x (-52)) : ¬ x < tolerance := by
  have small : tolerance.toModel.unpack =
      .finite .positive 4835703278458517 (-82) (by decide) := rfl
  have lt_iff : x < tolerance ↔ x.toModel.unpack.lt tolerance.toModel.unpack = true :=
    decide_eq_true_iff (p := x.toModel < tolerance.toModel)
  rw [lt_iff, small]
  rcases h with h | ⟨m, i, pos, h, -, le⟩
  · rw [h]
    decide
  · have greater : compare i (-82) = .gt := by
      rw [compare_gt_iff_gt]
      omega
    rw [h]
    simp [UnpackedFloat.lt, UnpackedFloat.compare, greater]

end Reaches

/-! ### Natural numbers -/

theorem ofNat_small {n : Nat} (h : n < 2 ^ 53) : Float.ofNat n = n.toUInt64.toFloat * 1 := by
  change Float.ofScientific n false 0 = _
  rw [Float.ofScientific, dif_pos ⟨h, by decide⟩]
  rfl

theorem ofNat_large {n : Nat} (h : ¬ n < 2 ^ 53) :
    Float.ofNat n = Float.ofModel (Float.Model.ofScientific n 0) := by
  change Float.ofScientific n false 0 = _
  rw [Float.ofScientific, dif_neg fun both => h both.1]
  rfl

/-- A natural number of at most 53 bits is a machine word first. -/
theorem exists_fields_ofNat_small {n : Nat} (h : 2 ≤ n) (small : n < 2 ^ 53) : ∃ m e pos,
    Float.ofNat n = Float.ofModel (Float.Model.pack (.finite .positive m e pos)) ∧ Full m ∧
      -51 ≤ e ∧ e ≤ n.log2 - 51 := by
  have size : 1 ≤ n.log2 := by rwa [Nat.le_log2 (by omega)]
  obtain ⟨m, e, pos, rounded, full, lower, upper⟩ :=
    round_large .positive (m := n) (e := 0) (by omega) (by omega)
  have word : n.toUInt64.toFloat =
      Float.ofModel (Float.Model.pack (.finite .positive m e pos)) := by
    change Float.ofModel (Float.Model.pack
      (normalize Format.binary64 ((n.toUInt64.toNat : Nat) : Int) 0 .positive)) = _
    have same : n.toUInt64.toNat = n := Nat.mod_eq_of_lt (by omega)
    rw [same, normalize_natCast _ (by omega), rounded]
  have reaches : Reaches n.toUInt64.toFloat (-51) := by
    rw [word]
    exact reaches_pack full (by omega) (by omega)
  refine ⟨m, e, pos, ?_, full, by omega, by omega⟩
  rw [ofNat_small small, reaches.mul_one, word]

theorem exists_fields_ofNat_large {n : Nat} (large : ¬ n < 2 ^ 53) : ∃ m e pos,
    Float.ofNat n = Float.ofModel (Float.Model.pack (.finite .positive m e pos)) ∧ Full m ∧
      -51 ≤ e ∧ e ≤ n.log2 - 51 := by
  have size : 1 ≤ n.log2 := by
    rw [Nat.le_log2 (by omega)]
    omega
  have shifted : (n <<< 53 * 10 ^ (0 : Int).toNat).log2 = n.log2 + 53 := by
    rw [Int.toNat_zero, pow_zero, Nat.mul_one, Nat.shiftLeft_eq, log2_mul_two_pow (by omega)]
  obtain ⟨m, e, pos, rounded, full, lower, upper⟩ :=
    roundWithAccuracy_long .positive (m := n <<< 53 * 10 ^ (0 : Int).toNat) (e := -53) .exact
      (by omega) (by omega)
  have positive : (0 : Int) ≤ 2 ^ Format.binary64.exponentBits := by decide
  have product : UnpackedFloat.ofScientific Format.binary64 n 0 = .finite .positive m e pos := by
    rw [UnpackedFloat.ofScientific, dif_neg (by omega), if_neg (by decide), if_neg (by omega),
      if_pos (by decide)]
    exact rounded
  refine ⟨m, e, pos, ?_, full, by omega, by omega⟩
  rw [ofNat_large large, ← product]
  rfl

/-- The fields of a natural number from 2 on, whose first bit may be carried up by one. -/
theorem exists_fields_ofNat {n : Nat} (h : 2 ≤ n) : ∃ m e pos,
    Float.ofNat n = Float.ofModel (Float.Model.pack (.finite .positive m e pos)) ∧ Full m ∧
      -51 ≤ e ∧ e ≤ n.log2 - 51 := by
  by_cases small : n < 2 ^ 53
  · exact exists_fields_ofNat_small h small
  · exact exists_fields_ofNat_large small

theorem reaches_ofNat {n : Nat} (h : 2 ≤ n) : Reaches (Float.ofNat n) (-51) := by
  obtain ⟨m, e, pos, eq, full, lower, -⟩ := exists_fields_ofNat h
  rw [eq]
  exact reaches_pack full (by omega) lower

theorem isFinite_ofNat {n : Nat} (h : n < 2 ^ 64) : (Float.ofNat n).isFinite = true := by
  by_cases large : 2 ≤ n
  · obtain ⟨m, e, pos, eq, full, lower, upper⟩ := exists_fields_ofNat large
    have size : n.log2 < 64 := (Nat.log2_lt (by omega)).mpr h
    rw [eq]
    change (Float.Model.pack (.finite .positive m e pos)).unpack.isFinite = true
    rw [unpack_pack_full pos full (by omega) (by omega)]
    rfl
  · obtain rfl | rfl : n = 0 ∨ n = 1 := by omega
    · rfl
    · rfl

theorem near_zero_ofNat {n : Nat} (h : 2 ≤ n) : near 0 (some (Float.ofNat n)) = false := by
  have reaches := reaches_ofNat h
  have far := (reaches.mono (by decide)).not_lt_tolerance
  simp only [near, Option.any_some, reaches.sub_zero, reaches.abs]
  exact decide_eq_false far

theorem near_one_ofNat {n : Nat} (h : 2 ≤ n) : near 1 (some (Float.ofNat n)) = false := by
  have reaches := (reaches_ofNat h).sub_one
  simp only [near, Option.any_some, reaches.abs]
  exact decide_eq_false reaches.not_lt_tolerance

end Fluxion
