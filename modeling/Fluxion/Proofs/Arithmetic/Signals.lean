import Fluxion.Proofs.Arithmetic.Zero

/-!
# Judged operations

An operation on finite numbers that raises no signal has a finite result, and operands that
agree have results that agree. Of the elementary functions this has to be assumed.
-/

namespace Fluxion

/-! ### Numbers, infinities and what is no number -/

theorem isNaN_of_isFinite {x : Float} (h : x.isFinite = true) : x.isNaN = false := by
  change x.toModel.unpack.isNaN = false
  change x.toModel.unpack.isFinite = true at h
  revert h
  cases x.toModel.unpack <;> simp [Float.Model.UnpackedFloat.isNaN,
    Float.Model.UnpackedFloat.isFinite]

theorem isFinite_of_ordinary {x : Float} (nan : x.isNaN = false) (inf : x.isInf = false) :
    x.isFinite = true := by
  change x.toModel.unpack.isNaN = false at nan
  change x.toModel.unpack.isInf = false at inf
  change x.toModel.unpack.isFinite = true
  revert nan inf
  cases x.toModel.unpack <;> simp [Float.Model.UnpackedFloat.isNaN,
    Float.Model.UnpackedFloat.isFinite, Float.Model.UnpackedFloat.isInf]

theorem isInf_of_isFinite {x : Float} (h : x.isFinite = true) : x.isInf = false := by
  change x.toModel.unpack.isInf = false
  change x.toModel.unpack.isFinite = true at h
  revert h
  cases x.toModel.unpack <;> simp [Float.Model.UnpackedFloat.isInf,
    Float.Model.UnpackedFloat.isFinite]

theorem isNaN_of_isInf {x : Float} (h : x.isInf = true) : x.isNaN = false := by
  change x.toModel.unpack.isInf = true at h
  change x.toModel.unpack.isNaN = false
  revert h
  cases x.toModel.unpack <;> simp [Float.Model.UnpackedFloat.isNaN,
    Float.Model.UnpackedFloat.isInf]

theorem any_isNaN_of_isFinite {xs : List Float} (finite : xs.all Float.isFinite = true) :
    xs.any Float.isNaN = false := by
  rw [List.any_eq_false]
  rw [List.all_eq_true] at finite
  intro x hx
  rw [isNaN_of_isFinite (finite x hx)]
  exact Bool.false_ne_true

/-! ### Signals -/

theorem isFinite_of_signal?_eq_none {xs : List Float} {pole vanishes : Bool} {r : Float}
    (finite : xs.all Float.isFinite = true) (h : signal? xs pole vanishes r = none) :
    r.isFinite = true := by
  rw [signal?, any_isNaN_of_isFinite finite, finite] at h
  split at h
  · simp at h
  · next nan =>
    split at h
    · split at h
      · next infinite => simp at infinite
      · split at h <;> simp at h
    · next inf =>
      exact isFinite_of_ordinary (Bool.eq_false_of_not_eq_true nan)
        (Bool.eq_false_of_not_eq_true inf)

theorem any_isNaN_congr {xs ys : List Float} (h : List.Forall₂ Agree xs ys) :
    xs.any Float.isNaN = ys.any Float.isNaN := by
  induction h with
  | nil => rfl
  | cons h _ ih => rw [List.any_cons, List.any_cons, ih, h.test (p := Float.isNaN) rfl]

theorem all_isFinite_congr {xs ys : List Float} (h : List.Forall₂ Agree xs ys) :
    xs.all Float.isFinite = ys.all Float.isFinite := by
  induction h with
  | nil => rfl
  | cons h _ ih => rw [List.all_cons, List.all_cons, ih, h.test (p := Float.isFinite) rfl]

/-- Whether there is a signal and which one does not depend on the signs of zeros. -/
theorem signal?_congr {xs ys : List Float} {r s : Float} (pole vanishes : Bool)
    (operands : List.Forall₂ Agree xs ys) (results : Agree r s) :
    signal? xs pole vanishes r = signal? ys pole vanishes s := by
  have nan := results.test (p := Float.isNaN) rfl
  have inf := results.test (p := Float.isInf) rfl
  have subnormal := results.test (p := isSubnormal) rfl
  have zero := results.test (p := fun x => x == 0) rfl
  simp only [signal?, any_isNaN_congr operands, all_isFinite_congr operands, nan, inf,
    subnormal, zero]

section

variable {x x' y y' : Float}

namespace Binary

theorem pole_congr (op : Binary) (hx : Agree x x') (hy : Agree y y') :
    op.pole x y = op.pole x' y' := by
  have zeroLeft := hx.test (p := fun x => x == 0) rfl
  have zeroRight := hy.test (p := fun x => x == 0) rfl
  have negative := hy.test (p := fun x => decide (x < 0)) rfl
  cases op <;> simp only [pole, zeroLeft, zeroRight, negative]

theorem vanishes_congr (op : Binary) (hx : Agree x x') (hy : Agree y y') :
    op.vanishes x y = op.vanishes x' y' := by
  have zeroLeft := hx.test (p := fun x => x != 0) rfl
  have zeroRight := hy.test (p := fun x => x != 0) rfl
  cases op <;> simp only [vanishes, zeroLeft, zeroRight]

end Binary

end

section

variable [Elementary] {x x' y y' v : Float}

theorem Unary.apply_eq_ok {op : Unary} : op.apply x = .ok v ↔
    signal? [x] (op.pole x) op.vanishes (op.compute x) = none ∧ op.compute x = v := by
  simp only [Unary.apply]
  split <;> simp_all

theorem Binary.apply_eq_ok {op : Binary} : op.apply x y = .ok v ↔
    signal? [x, y] (op.pole x y) (op.vanishes x y) (op.compute x y) = none ∧
      op.compute x y = v := by
  simp only [Binary.apply]
  split <;> simp_all

theorem Unary.isFinite_apply {op : Unary} (hx : x.isFinite = true) (h : op.apply x = .ok v) :
    v.isFinite = true := by
  obtain ⟨quiet, rfl⟩ := Unary.apply_eq_ok.mp h
  exact isFinite_of_signal?_eq_none (by simp [hx]) quiet

theorem Binary.isFinite_apply {op : Binary} (hx : x.isFinite = true) (hy : y.isFinite = true)
    (h : op.apply x y = .ok v) : v.isFinite = true := by
  obtain ⟨quiet, rfl⟩ := Binary.apply_eq_ok.mp h
  exact isFinite_of_signal?_eq_none (by simp [hx, hy]) quiet

/-- What the elementary functions are assumed to do with zeros and ones. -/
structure Elementary.Lawful : Prop where
  pow_one : ∀ x : Float, x.isFinite = true → Agree (Elementary.pow x 1) x
  pow_zero : ∀ x z : Float, x.isFinite = true → IsZero z → Elementary.pow x z = 1
  one_pow : ∀ x : Float, x.isFinite = true → Elementary.pow 1 x = 1
  zero_pow : ∀ z x : Float, IsZero z → x.isFinite = true → 0 < x → IsZero (Elementary.pow z x)
  unary_zero : ∀ (op : Unary) (z w v : Float), op ≠ .sqrt → IsZero z → IsZero w →
    op.apply z = .ok v → ∃ v', op.apply w = .ok v' ∧ Agree v v'
  pow_congr : ∀ x x' y y' v : Float, x.isFinite = true → y.isFinite = true → Agree x x' →
    Agree y y' → Binary.pow.apply x y = .ok v →
    ∃ v', Binary.pow.apply x' y' = .ok v' ∧ Agree v v'

/-- Results that agree are judged alike. -/
theorem Unary.apply_congr_of_compute {op : Unary} (hx : Agree x x')
    (pole : op.pole x = op.pole x') (computed : Agree (op.compute x) (op.compute x'))
    (h : op.apply x = .ok v) : ∃ v', op.apply x' = .ok v' ∧ Agree v v' := by
  obtain ⟨quiet, rfl⟩ := Unary.apply_eq_ok.mp h
  refine ⟨op.compute x', Unary.apply_eq_ok.mpr ⟨?_, rfl⟩, computed⟩
  rw [← quiet, pole]
  exact (signal?_congr _ _ (.cons hx .nil) computed).symm

/-- An operand that agrees gives a result that agrees. -/
theorem Unary.apply_congr (lawful : Elementary.Lawful) {op : Unary} (hx : Agree x x')
    (h : op.apply x = .ok v) : ∃ v', op.apply x' = .ok v' ∧ Agree v v' := by
  rcases hx with rfl | ⟨hz, hw⟩
  · exact ⟨v, h, .refl v⟩
  · by_cases ho : op = .sqrt
    · subst ho
      have root {z : Float} (hz : IsZero z) : z.sqrt = z := by
        rcases hz with rfl | rfl <;> rfl
      refine Unary.apply_congr_of_compute (Or.inr ⟨hz, hw⟩) rfl ?_ h
      rw [Unary.compute, Unary.compute, root hz, root hw]
      exact Or.inr ⟨hz, hw⟩
    · exact lawful.unary_zero op x x' v ho hz hw h

namespace Binary

/-- Results that agree are judged alike. -/
theorem apply_congr_of_compute {op : Binary} (hx : Agree x x') (hy : Agree y y')
    (computed : Agree (op.compute x y) (op.compute x' y')) (h : op.apply x y = .ok v) :
    ∃ v', op.apply x' y' = .ok v' ∧ Agree v v' := by
  obtain ⟨quiet, rfl⟩ := apply_eq_ok.mp h
  refine ⟨op.compute x' y', apply_eq_ok.mpr ⟨?_, rfl⟩, computed⟩
  rw [← quiet, op.pole_congr hx hy, op.vanishes_congr hx hy]
  exact (signal?_congr _ _ (.cons hx (.cons hy .nil)) computed).symm

/-- A quotient by zero is refused. -/
theorem div_apply_zero (hy : IsZero y) (fx : x.isFinite = true) :
    Binary.div.apply x y ≠ .ok v := by
  intro h
  have finite := isFinite_apply fx hy.isFinite h
  obtain ⟨-, rfl⟩ := apply_eq_ok.mp h
  exact absurd finite (by simp [compute, isFinite_div_zero hy fx])

/-- Operands that agree give results that agree. -/
theorem apply_congr (lawful : Elementary.Lawful) {op : Binary} (hx : Agree x x')
    (hy : Agree y y') (fx : x.isFinite = true) (fy : y.isFinite = true)
    (h : op.apply x y = .ok v) : ∃ v', op.apply x' y' = .ok v' ∧ Agree v v' := by
  cases op with
  | add => exact apply_congr_of_compute hx hy (add_agree hx hy fx fy) h
  | sub => exact apply_congr_of_compute hx hy (sub_agree hx hy fx fy) h
  | mul => exact apply_congr_of_compute hx hy (mul_agree hx hy fx fy) h
  | div =>
    have ny : ¬IsZero y := fun hz => div_apply_zero hz fx h
    exact apply_congr_of_compute hx hy (div_agree hx hy fy ny) h
  | pow => exact lawful.pow_congr x x' y y' v fx fy hx hy h

end Binary

end

/-- Powers as far as the exponents 0, 1 and 2. -/
def coarsePow (x y : Float) : Float :=
  if IsZero y ∨ x = 1 then 1 else if y = 1 then x else if IsZero x then 0 else x * x

theorem coarsePow_agree {x x' y y' : Float} (hx : Agree x x') (hy : Agree y y') :
    Agree (coarsePow x y) (coarsePow x' y') := by
  have one {x x' : Float} (h : Agree x x') : x = 1 ↔ x' = 1 := by
    rcases h with rfl | ⟨hz, hz'⟩
    · rfl
    · rcases hz with rfl | rfl <;> rcases hz' with rfl | rfl <;> decide
  have zero {x x' : Float} (h : Agree x x') : IsZero x ↔ IsZero x' := ⟨h.isZero, h.symm.isZero⟩
  simp only [coarsePow, zero hy, one hx, one hy, zero hx]
  split
  · exact .refl 1
  · split
    · exact hx
    · split
      · exact .refl 0
      · next nonzero =>
        rcases hx with rfl | ⟨-, hz⟩
        · exact .refl _
        · exact absurd hz nonzero

/-- Elementary functions that are lawful although all but the powers are constants. -/
@[reducible] def Elementary.coarse : Elementary where
  exp _ := 1
  ln _ := 1
  sin _ := 1
  cos _ := 1
  tan _ := 1
  sinh _ := 1
  cosh _ := 1
  tanh _ := 1
  arcsin _ := 1
  arccos _ := 1
  arctan _ := 1
  pow := coarsePow

theorem Elementary.coarse_lawful : @Elementary.Lawful coarse := by
  let := coarse
  have one : ¬IsZero 1 := by decide
  refine ⟨fun x _ => ?_, fun x z _ hz => if_pos (Or.inl hz), fun x _ => if_pos (Or.inr rfl),
    fun z x hz _ pos => ?_, fun op z w v root hz hw h => ?_, fun x x' y y' v _ _ hx hy h => ?_⟩
  · change Agree (coarsePow x 1) x
    rw [coarsePow]
    split
    · next h => exact Or.inl (h.resolve_left one).symm
    · rw [if_pos rfl]
      exact .refl x
  · change IsZero (coarsePow z x)
    have nonzero : ¬IsZero x := by
      rintro (rfl | rfl)
      · exact absurd pos (by decide)
      · exact absurd pos (by decide)
    have other : z ≠ 1 := fun he => one (he ▸ hz)
    rw [coarsePow, if_neg (not_or.mpr ⟨nonzero, other⟩)]
    split
    · exact hz
    · exact Or.inl rfl
  · have agree : Agree z w := Or.inr ⟨hz, hw⟩
    refine Unary.apply_congr_of_compute agree ?_ ?_ h
    · cases op <;> first | rfl | exact agree.test (p := fun x => x == 0) rfl
    · cases op <;> first | exact .refl _ | exact absurd rfl root
  · exact Binary.apply_congr_of_compute hx hy (coarsePow_agree hx hy) h

end Fluxion
