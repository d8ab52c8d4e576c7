import Fluxion.Arithmetic
import Fluxion.Proofs.Arithmetic.Packing

/-!
# Numbers up to the sign of zero

Two numbers agree if they are equal or both of them are zeros. What the identities of
simplification take for granted holds up to agreement: adding zero, multiplying by one, and
the like. The sign of a zero is lost on the way but reaches no other result.
-/

namespace Fluxion

open Float.Model Float.Model.UnpackedFloat

def IsZero (x : Float) : Prop := x = 0 ∨ x = -0

def Agree (x y : Float) : Prop := x = y ∨ IsZero x ∧ IsZero y

instance (x : Float) : Decidable (IsZero x) := inferInstanceAs (Decidable (x = 0 ∨ x = -0))

instance (x y : Float) : Decidable (Agree x y) :=
  inferInstanceAs (Decidable (x = y ∨ IsZero x ∧ IsZero y))

namespace Agree

variable {x y z : Float}

theorem refl (x : Float) : Agree x x := Or.inl rfl

theorem symm (h : Agree x y) : Agree y x := by
  rcases h with rfl | ⟨hx, hy⟩
  · exact refl x
  · exact Or.inr ⟨hy, hx⟩

theorem trans (h : Agree x y) (h' : Agree y z) : Agree x z := by
  rcases h with rfl | ⟨hx, hy⟩
  · exact h'
  · rcases h' with rfl | ⟨-, hz⟩
    · exact Or.inr ⟨hx, hy⟩
    · exact Or.inr ⟨hx, hz⟩

theorem isZero (h : Agree x y) (hx : IsZero x) : IsZero y := by
  rcases h with rfl | ⟨-, hy⟩
  · exact hx
  · exact hy

/-- A test that does not tell the two zeros apart does not tell numbers that agree apart. -/
theorem test {α : Sort _} {p : Float → α} (zeros : p (-0) = p 0) (h : Agree x y) : p x = p y := by
  rcases h with rfl | ⟨hx, hy⟩
  · rfl
  · rcases hx with rfl | rfl <;> rcases hy with rfl | rfl <;> simp [zeros]

end Agree

/-! ### Fields of numbers -/

theorem ofModel_pack_unpack (x : Float) :
    Float.ofModel (Float.Model.pack x.toModel.unpack) = x := by
  rw [pack_unpack]

theorem ofModel_pack_eq {x : Float} {u : UnpackedFloat}
    (h : u = x.toModel.unpack) : Float.ofModel (Float.Model.pack u) = x := by
  rw [h]
  exact ofModel_pack_unpack x

theorem isZero_iff {x : Float} : IsZero x ↔ ∃ s, x.toModel.unpack = .zero s := by
  constructor
  · rintro (rfl | rfl)
    · exact ⟨.positive, rfl⟩
    · exact ⟨.negative, rfl⟩
  · rintro ⟨s, hs⟩
    rw [← ofModel_pack_unpack x, hs]
    cases s with
    | positive => exact Or.inl rfl
    | negative => exact Or.inr rfl

theorem isZero_pack (s : Sign) : IsZero (Float.ofModel (Float.Model.pack (.zero s))) := by
  cases s with
  | positive => exact Or.inl rfl
  | negative => exact Or.inr rfl

theorem isFinite_pack_infinity (s : Sign) :
    (Float.ofModel (Float.Model.pack (.infinity s))).isFinite = false := by
  cases s <;> rfl

theorem isFinite_pack_notANumber :
    (Float.ofModel (Float.Model.pack .notANumber)).isFinite = false := rfl

theorem unpack_one : (1 : Float).toModel.unpack = .finite .positive (2 ^ 52) (-52) (by decide) :=
  rfl

theorem Agree.isFinite {x y : Float} (h : Agree x y) (hx : x.isFinite = true) :
    y.isFinite = true := by
  rw [← hx]
  exact (h.test (p := Float.isFinite) rfl).symm

theorem IsZero.isFinite {x : Float} (h : IsZero x) : x.isFinite = true := by
  rcases h with rfl | rfl <;> rfl

/-- A finite number is a zero or has a mantissa and an exponent. -/
theorem finite_cases {x : Float} (h : x.isFinite = true) :
    IsZero x ∨ ∃ s m e pos, x.toModel.unpack = .finite s m e pos ∧ Canonical m e := by
  change x.toModel.unpack.isFinite = true at h
  cases hx : x.toModel.unpack with
  | infinity s => simp [hx, UnpackedFloat.isFinite] at h
  | notANumber => simp [hx, UnpackedFloat.isFinite] at h
  | zero s => exact Or.inl (isZero_iff.mpr ⟨s, hx⟩)
  | finite s m e pos => exact Or.inr ⟨s, m, e, pos, rfl, canonical_unpack hx⟩

theorem beq_self {x : Float} (h : x.isFinite = true) : (x == x) = true := by
  change x.toModel.unpack.beq x.toModel.unpack = true
  change x.toModel.unpack.isFinite = true at h
  cases hx : x.toModel.unpack with
  | infinity s => simp [hx, UnpackedFloat.isFinite] at h
  | notANumber => simp [hx, UnpackedFloat.isFinite] at h
  | zero s => rfl
  | finite s m e pos =>
    cases s <;> simp [UnpackedFloat.beq, UnpackedFloat.compare]

theorem Agree.beq {x y : Float} (h : Agree x y) (finite : y.isFinite = true) :
    (x == y) = true := by
  rcases h with rfl | ⟨hx | hx, hy | hy⟩
  · exact beq_self finite
  all_goals
    subst hx hy
    rfl

theorem isZero_of_beq {x : Float} (h : (x == 0) = true) : IsZero x := by
  change x.toModel.unpack.beq (.zero .positive) = true at h
  rw [isZero_iff]
  cases hx : x.toModel.unpack with
  | zero s => exact ⟨s, rfl⟩
  | infinity s | finite s m e pos =>
    rw [hx] at h
    cases s <;> cases h
  | notANumber =>
    rw [hx] at h
    cases h

theorem IsZero.bne_zero {x : Float} (h : IsZero x) : (x != 0) = false := by
  rcases h with rfl | rfl <;> decide

/-! ### Neutral and absorbing operands -/

section

variable {x y z w : Float}

theorem one_mul_of_finite (h : x.isFinite = true) : 1 * x = x := by
  have unpacked : UnpackedFloat.mul Format.binary64 (1 : Float).toModel.unpack x.toModel.unpack =
      x.toModel.unpack := by
    rw [unpack_one]
    rcases finite_cases h with hz | ⟨s, m, e, pos, hx, canonical⟩
    · obtain ⟨s, hs⟩ := isZero_iff.mp hz
      rw [hs]
      cases s <;> rfl
    · rw [hx]
      refine Eq.trans ?_ (roundWithAccuracy_shifted s pos canonical 52)
      change roundWithAccuracy Format.binary64 (.positive * s) (2 ^ 52 * m) (-52 + e) .exact = _
      rw [Nat.mul_comm, Int.add_comm]
      cases s <;> rfl
  exact ofModel_pack_eq unpacked

theorem mul_one_of_finite (h : x.isFinite = true) : x * 1 = x := by
  have unpacked : UnpackedFloat.mul Format.binary64 x.toModel.unpack (1 : Float).toModel.unpack =
      x.toModel.unpack := by
    rw [unpack_one]
    rcases finite_cases h with hz | ⟨s, m, e, pos, hx, canonical⟩
    · obtain ⟨s, hs⟩ := isZero_iff.mp hz
      rw [hs]
      cases s <;> rfl
    · rw [hx]
      refine Eq.trans ?_ (roundWithAccuracy_shifted s pos canonical 52)
      change roundWithAccuracy Format.binary64 (s * .positive) (m * 2 ^ 52) (e + -52) .exact = _
      cases s <;> rfl
  exact ofModel_pack_eq unpacked

/-- The quotient by one needs no rounding: enough zero bits are put behind the mantissa. -/
theorem divCore_one {m : Nat} {e : Int} (pos : 0 < m) (canonical : Canonical m e) :
    ∃ j : Nat, divCore Format.binary64 m e (2 ^ 52) (-52) = (m * 2 ^ j, e - j, .exact) := by
  have short : m.log2 < 53 := (Nat.log2_lt (Nat.ne_of_gt pos)).mpr canonical.lt
  have one : totalExponent (2 ^ 52) (-52) = 1 := by rw [totalExponent, Nat.log2_two_pow]; rfl
  obtain ⟨t, target⟩ : ∃ t, Format.binary64.targetExponent
      (totalExponent m e - totalExponent (2 ^ 52) (-52)) = t := ⟨_, rfl⟩
  have ht := target
  rw [one, targetExponent_eq, totalExponent] at ht
  have least := canonical.least
  have lower : min (e - -52) t = t := by omega
  have amount : (e - -52 - t).toNat = (e - t).toNat + 52 := by omega
  refine ⟨(e - t).toNat, ?_⟩
  have quotient : m * 2 ^ ((e - t).toNat + 52) = m * 2 ^ (e - t).toNat * 2 ^ 52 := by ring
  simp only [divCore, target, lower, amount, Nat.shiftLeft_eq, quotient, Nat.mul_mod_left,
    accuracyOfFraction, if_true]
  rw [Nat.mul_div_cancel _ (by decide)]
  refine Prod.ext rfl (Prod.ext ?_ rfl)
  change t = e - ((e - t).toNat : Int)
  omega

theorem div_one_of_finite (h : x.isFinite = true) : x / 1 = x := by
  have unpacked : UnpackedFloat.div Format.binary64 x.toModel.unpack (1 : Float).toModel.unpack =
      x.toModel.unpack := by
    rw [unpack_one]
    rcases finite_cases h with hz | ⟨s, m, e, pos, hx, canonical⟩
    · obtain ⟨s, hs⟩ := isZero_iff.mp hz
      rw [hs]
      cases s <;> rfl
    · obtain ⟨j, hj⟩ := divCore_one pos canonical
      rw [hx]
      refine Eq.trans ?_ (roundWithAccuracy_shifted s pos canonical j)
      have sign : s / .positive = s := by cases s <;> rfl
      simp only [UnpackedFloat.div, hj, sign]
  exact ofModel_pack_eq unpacked

theorem zero_mul_of_finite (hz : IsZero z) (h : x.isFinite = true) : IsZero (z * x) := by
  obtain ⟨s, hs⟩ := isZero_iff.mp hz
  change IsZero (Float.ofModel (Float.Model.pack (UnpackedFloat.mul Format.binary64
    z.toModel.unpack x.toModel.unpack)))
  rw [hs]
  rcases finite_cases h with hx | ⟨s', m, e, pos, hx, -⟩
  · obtain ⟨s', hx⟩ := isZero_iff.mp hx
    rw [hx]
    exact isZero_pack (s * s')
  · rw [hx]
    exact isZero_pack (s * s')

theorem mul_zero_of_finite (hz : IsZero z) (h : x.isFinite = true) : IsZero (x * z) := by
  obtain ⟨s, hs⟩ := isZero_iff.mp hz
  change IsZero (Float.ofModel (Float.Model.pack (UnpackedFloat.mul Format.binary64
    x.toModel.unpack z.toModel.unpack)))
  rw [hs]
  rcases finite_cases h with hx | ⟨s', m, e, pos, hx, -⟩
  · obtain ⟨s', hx⟩ := isZero_iff.mp hx
    rw [hx]
    exact isZero_pack (s' * s)
  · rw [hx]
    exact isZero_pack (s' * s)

/-- A result with the fields of a number agrees with it, whatever the sign of a zero. -/
theorem agree_of_fields {u : UnpackedFloat} (h : x.isFinite = true)
    (zero : ∀ s, x.toModel.unpack = .zero s → ∃ s', u = .zero s')
    (nonzero : ∀ s m e pos, x.toModel.unpack = .finite s m e pos → u = .finite s m e pos) :
    Agree (Float.ofModel (Float.Model.pack u)) x := by
  rcases finite_cases h with hx | ⟨s, m, e, pos, hx, -⟩
  · obtain ⟨s, hs⟩ := isZero_iff.mp hx
    obtain ⟨s', rfl⟩ := zero s hs
    exact Or.inr ⟨isZero_pack s', hx⟩
  · have fields : u = x.toModel.unpack := (nonzero s m e pos hx).trans hx.symm
    exact Or.inl (ofModel_pack_eq fields)

theorem zero_add_agree (hz : IsZero z) (h : x.isFinite = true) : Agree (z + x) x := by
  obtain ⟨s, hs⟩ := isZero_iff.mp hz
  change Agree (Float.ofModel (Float.Model.pack (UnpackedFloat.add Format.binary64
    z.toModel.unpack x.toModel.unpack))) x
  rw [hs]
  apply agree_of_fields h
  · intro s' hx
    rw [hx, UnpackedFloat.add]
    split
    · exact ⟨s, rfl⟩
    · exact ⟨.positive, rfl⟩
  · intro s' m e pos hx
    rw [hx]
    rfl

theorem add_zero_agree (hz : IsZero z) (h : x.isFinite = true) : Agree (x + z) x := by
  obtain ⟨s, hs⟩ := isZero_iff.mp hz
  change Agree (Float.ofModel (Float.Model.pack (UnpackedFloat.add Format.binary64
    x.toModel.unpack z.toModel.unpack))) x
  rw [hs]
  apply agree_of_fields h
  · intro s' hx
    rw [hx, UnpackedFloat.add]
    split
    · exact ⟨s', rfl⟩
    · exact ⟨.positive, rfl⟩
  · intro s' m e pos hx
    rw [hx]
    rfl

theorem sub_zero_agree (hz : IsZero z) (h : x.isFinite = true) : Agree (x - z) x := by
  obtain ⟨s, hs⟩ := isZero_iff.mp hz
  change Agree (Float.ofModel (Float.Model.pack (UnpackedFloat.sub Format.binary64
    x.toModel.unpack z.toModel.unpack))) x
  rw [hs]
  apply agree_of_fields h
  · intro s' hx
    rw [hx, UnpackedFloat.sub]
    split
    · exact ⟨s', rfl⟩
    · exact ⟨.positive, rfl⟩
  · intro s' m e pos hx
    rw [hx]
    rfl

/-- What is subtracted from a zero does not depend on the sign of the zero. -/
theorem zero_sub_agree (hz : IsZero z) (hw : IsZero w) (h : x.isFinite = true) :
    Agree (z - x) (w - x) := by
  obtain ⟨s, hs⟩ := isZero_iff.mp hz
  obtain ⟨s', hs'⟩ := isZero_iff.mp hw
  rcases finite_cases h with hx | ⟨s'', m, e, pos, hx, -⟩
  · have zeros : Agree z w := Or.inr ⟨hz, hw⟩
    exact (sub_zero_agree hx hz.isFinite).trans
      (zeros.trans (sub_zero_agree hx hw.isFinite).symm)
  · refine Or.inl ?_
    change Float.ofModel (Float.Model.pack (UnpackedFloat.sub Format.binary64
      z.toModel.unpack x.toModel.unpack)) = Float.ofModel (Float.Model.pack
      (UnpackedFloat.sub Format.binary64 w.toModel.unpack x.toModel.unpack))
    rw [hs, hs', hx]
    rfl

/-! ### Operands that agree -/

variable {x' y y' : Float}

theorem add_agree (hx : Agree x x') (hy : Agree y y') (fx : x.isFinite = true)
    (fy : y.isFinite = true) : Agree (x + y) (x' + y') := by
  rcases hx with rfl | ⟨hz, hz'⟩
  · rcases hy with rfl | ⟨hw, hw'⟩
    · exact .refl _
    · exact (add_zero_agree hw fx).trans (add_zero_agree hw' fx).symm
  · exact (zero_add_agree hz fy).trans (hy.trans (zero_add_agree hz' (hy.isFinite fy)).symm)

theorem sub_agree (hx : Agree x x') (hy : Agree y y') (fx : x.isFinite = true)
    (fy : y.isFinite = true) : Agree (x - y) (x' - y') := by
  have fx' := hx.isFinite fx
  rcases hy with rfl | ⟨hw, hw'⟩
  · rcases hx with rfl | ⟨hz, hz'⟩
    · exact .refl _
    · exact zero_sub_agree hz hz' fy
  · exact (sub_zero_agree hw fx).trans (hx.trans (sub_zero_agree hw' fx').symm)

theorem mul_agree (hx : Agree x x') (hy : Agree y y') (fx : x.isFinite = true)
    (fy : y.isFinite = true) : Agree (x * y) (x' * y') := by
  have fx' := hx.isFinite fx
  have fy' := hy.isFinite fy
  rcases hx with rfl | ⟨hz, hz'⟩
  · rcases hy with rfl | ⟨hw, hw'⟩
    · exact .refl _
    · exact Or.inr ⟨mul_zero_of_finite hw fx, mul_zero_of_finite hw' fx⟩
  · exact Or.inr ⟨zero_mul_of_finite hz fy, zero_mul_of_finite hz' fy'⟩

theorem isFinite_div_zero (hz : IsZero z) (h : x.isFinite = true) :
    (x / z).isFinite = false := by
  obtain ⟨s, hs⟩ := isZero_iff.mp hz
  have quotient : x / z = Float.ofModel (Float.Model.pack (UnpackedFloat.div Format.binary64
    x.toModel.unpack (.zero s))) := by
    rw [← hs]
    rfl
  rw [quotient]
  rcases finite_cases h with hx | ⟨s', m, e, pos, hx, -⟩
  · obtain ⟨s', hx⟩ := isZero_iff.mp hx
    rw [hx]
    exact isFinite_pack_notANumber
  · rw [hx]
    exact isFinite_pack_infinity (s' / s)

theorem zero_div_of_finite (hz : IsZero z) (h : x.isFinite = true) (nonzero : ¬IsZero x) :
    IsZero (z / x) := by
  obtain ⟨s, hs⟩ := isZero_iff.mp hz
  change IsZero (Float.ofModel (Float.Model.pack (UnpackedFloat.div Format.binary64
    z.toModel.unpack x.toModel.unpack)))
  rw [hs]
  rcases finite_cases h with hx | ⟨s', m, e, pos, hx, -⟩
  · exact absurd hx nonzero
  · rw [hx]
    exact isZero_pack (s / s')

theorem div_agree (hx : Agree x x') (hy : Agree y y') (fy : y.isFinite = true)
    (ny : ¬IsZero y) : Agree (x / y) (x' / y') := by
  rcases hy with rfl | ⟨hw, -⟩
  · rcases hx with rfl | ⟨hz, hz'⟩
    · exact .refl _
    · exact Or.inr ⟨zero_div_of_finite hz fy ny, zero_div_of_finite hz' fy ny⟩
  · exact absurd hw ny

end

end Fluxion
