import Fluxion.Derivative.Expansion
import Fluxion.Proofs.Arithmetic.Naturals
import Fluxion.Proofs.Sequencing
import Fluxion.Proofs.Simplification.Value

/-!
# Taylor polynomials under simplification

The polynomial for given values is worth the sum of its terms, computed from left to right,
and simplification keeps that up to the sign of zero, as long as it mistakes neither a
coefficient for 0 or 1 nor the centre for 0. The exponents are never mistaken. A pass leaves
the constant term a number, which may absorb the zeros that come after it, and nothing else.
-/

namespace Fluxion

namespace Expansion

/-! ### The sum -/

section

variable [Elementary]

/-- The term of order `k` at `x`, for the value `v` of the derivative of that order. -/
def summand (center x : Float) (k : Nat) (v : Float) : Except NumericFault Float := do
  let c ← Binary.div.apply v (factorial k)
  let d ← Binary.sub.apply x center
  let p ← Binary.pow.apply d (Float.ofNat k)
  Binary.mul.apply c p

/-- The terms for `vs`, the first of order `k`, added to `sum` from left to right. -/
def addSummands (center x : Float) : Nat → Float → List Float → Except NumericFault Float
  | _, sum, [] => .ok sum
  | k, sum, v :: vs => do
    let term ← summand center x k v
    let sum ← Binary.add.apply sum term
    addSummands center x (k + 1) sum vs

/-- The Taylor polynomial at `x`, computed from left to right. -/
def sum (center x : Float) : List Float → Except NumericFault Float
  | [] => .ok 0
  | v :: vs => do
    let term ← summand center x 0 v
    addSummands center x 1 term vs

/-- No coefficient for `vs`, the first of order `k`, is mistaken for 0 or 1. -/
def Clear : Nat → List Float → Prop
  | _, [] => True
  | k, v :: vs =>
    (∀ c, Binary.div.apply v (factorial k) = .ok c → ¬Mistaken 0 c ∧ ¬Mistaken 1 c) ∧
      Clear (k + 1) vs

instance (coefficient : Except NumericFault Float) :
    Decidable (∀ c, coefficient = .ok c → ¬Mistaken 0 c ∧ ¬Mistaken 1 c) :=
  match coefficient with
  | .ok c => decidable_of_iff (¬Mistaken 0 c ∧ ¬Mistaken 1 c) (by simp)
  | .error _ => isTrue (by simp)

instance decidableClear : (k : Nat) → (vs : List Float) → Decidable (Clear k vs)
  | _, [] => isTrue trivial
  | k, v :: vs =>
    have := decidableClear (k + 1) vs
    inferInstanceAs (Decidable
      ((∀ c, Binary.div.apply v (factorial k) = .ok c → ¬Mistaken 0 c ∧ ¬Mistaken 1 c) ∧
        Clear (k + 1) vs))

end

/-! ### Exponents and factorials -/

theorem not_mistaken_ofNat (k : Nat) :
    ¬Mistaken 0 (Float.ofNat k) ∧ ¬Mistaken 1 (Float.ofNat k) := by
  by_cases large : 2 ≤ k
  · constructor
    · rintro ⟨close, -⟩
      rw [near_zero_ofNat large] at close
      cases close
    · rintro ⟨close, -⟩
      rw [near_one_ofNat large] at close
      cases close
  · obtain rfl | rfl : k = 0 ∨ k = 1 := by omega
    · decide
    · decide

theorem reaches_factorial (k : Nat) : Reaches (factorial k) (-52) := by
  have one : Reaches 1 (-52) :=
    Or.inr ⟨2 ^ 52, -52, by decide, unpack_one, ⟨by decide, by decide⟩, by decide⟩
  induction k with
  | zero => exact one
  | succ k ih =>
    apply ih.mul
    by_cases large : 2 ≤ k + 1
    · exact (reaches_ofNat large).mono (by decide)
    · obtain rfl : k = 0 := by omega
      exact one

/-- A factorial may be infinite, and then the coefficient is zero. -/
theorem isFinite_coefficient [Elementary] {v c : Float} {k : Nat} (fv : v.isFinite = true)
    (h : Binary.div.apply v (factorial k) = .ok c) : c.isFinite = true := by
  rcases (reaches_factorial k).isFinite_or_isZero_div fv with finite | zero
  · exact Binary.isFinite_apply fv finite h
  · obtain ⟨-, rfl⟩ := Binary.apply_eq_ok.mp h
    exact zero.isFinite

/-! ### Terms -/

def shift (key : Key) (center : Float) : Term Key := .binary .sub (.var key) (.number center)

def power (key : Key) (center : Float) (k : Nat) : Term Key :=
  .binary .pow (shift key center) (.number (Float.ofNat k))

/-- A term of which the coefficient is computed already. -/
def weighted (key : Key) (center : Float) (k : Nat) (c : Float) : Term Key :=
  .binary .mul (.number c) (power key center k)

variable [Elementary] {r : Registry} {symbol : Char} {key : Key} {center x v c c₀ w : Float}
  {k : Nat} {vs : List Float} {S T : Term Key}

theorem pass_term (h : Binary.div.apply v (factorial k) = .ok c) :
    ((term symbol center k v).map Key.ofSymbol).pass =
      (weighted (.ofSymbol symbol) center k c).pass := by
  have folded : (Term.binary .div (.number v) (.number (factorial k)) : Term Key).pass =
      .number c := by
    simp only [Term.pass, Term.reduce, Term.remainder?, Term.number?, h, Except.map, Term.leave]
  simp only [term, Term.map, weighted, Term.pass] at folded ⊢
  rw [folded]
  rfl

theorem pass_shift (key : Key) (center : Float) : (shift key center).pass = .var key ∨
    (shift key center).pass = shift key center := by
  rcases (shift key center).reduce_cases with ⟨-, same⟩ | ⟨e, he, left⟩
  · exact Or.inr same
  · refine Or.inl (left.trans ?_)
    rw [shift, Term.remainder?_of_number?_eq_none (Or.inl rfl), Except.ok.injEq] at he
    simp only [Binary.identity?, Option.ite_none_right_eq_some, Option.some.injEq] at he
    rw [← he.2]
    rfl

theorem number?_pass_shift : (shift key center).pass.number? = none := by
  rcases pass_shift key center with h | h <;> rw [h] <;> rfl

theorem pass_power : (power key center k).pass =
    (Term.binary .pow (shift key center).pass (.number (Float.ofNat k))).reduce := rfl

/-- Only the power of order 0 becomes a number. -/
theorem number?_pass_power :
    (power key center k).pass.number? = if k = 0 then some 1 else none := by
  have identity : (Term.binary .pow (shift key center).pass (.number (Float.ofNat k))).remainder? =
      .ok (Binary.pow.identity? none (some (Float.ofNat k))) := by
    rw [Term.remainder?_of_number?_eq_none (Or.inl number?_pass_shift), number?_pass_shift]
    rfl
  rw [pass_power, Term.reduce, identity]
  by_cases large : 2 ≤ k
  · have none : Binary.pow.identity? none (some (Float.ofNat k)) = none := by
      simp only [Binary.identity?, near_zero_ofNat large, near_one_ofNat large]
      rfl
    rw [none, if_neg (by omega)]
    rfl
  · obtain rfl | rfl : k = 0 ∨ k = 1 := by omega
    · have one : Binary.pow.identity? none (some (Float.ofNat 0)) = some (.constant 1) := by
        decide
      rw [one]
      rfl
    · have base : Binary.pow.identity? none (some (Float.ofNat 1)) = some .left := by
        decide
      rw [base]
      exact number?_pass_shift

theorem pass_weighted : (weighted key center k c).pass =
    (Term.binary .mul (.number c) (power key center k).pass).reduce := rfl

/-- The constant term becomes its coefficient. -/
theorem of_pass_weighted_zero (fc : c.isFinite = true)
    (h : (weighted key center 0 c).pass = .number w) : w = c := by
  have one : (power key center 0).pass = .number 1 := by
    rw [← Term.number?_eq_some, number?_pass_power, if_pos rfl]
  rw [pass_weighted, one] at h
  cases hu : Binary.mul.apply c 1 with
  | error e => simp [Term.reduce, Term.remainder?, Term.number?, hu, Except.map] at h
  | ok u =>
    simp only [Term.reduce, Term.remainder?, Term.number?, hu, Except.map, Term.leave,
      Term.number.injEq] at h
    obtain ⟨-, rfl⟩ := Binary.apply_eq_ok.mp hu
    rw [← h]
    exact mul_one_of_finite fc

/-- Another term becomes a number only if its coefficient counts as zero. -/
theorem of_pass_weighted_succ (h : (weighted key center (k + 1) c).pass = .number w) :
    w = 0 := by
  have number : (power key center (k + 1)).pass.number? = none := by
    rw [number?_pass_power, if_neg (Nat.succ_ne_zero k)]
  rw [pass_weighted, Term.reduce, Term.remainder?_of_number?_eq_none (Or.inr number), number] at h
  simp only [Term.number?, Binary.identity?, near, Option.any_none, Bool.false_eq_true,
    if_false] at h
  split at h
  · next e he =>
    split at he
    · cases he
      exact (Term.number.inj h).symm
    · split at he
      · cases he
        rw [show (power key center (k + 1)).pass = .number w from h] at number
        cases number
      · cases he
  · cases h

/-- What becomes a number when a term is added is a sum of numbers. -/
theorem of_reduce_add (h : (Term.binary .add S T).reduce = .number w) :
    ∃ u z, S = .number u ∧ T = .number z ∧ w = u + z := by
  rcases (Term.binary .add S T).reduce_cases with ⟨-, same⟩ | ⟨e, he, left⟩
  · rw [same] at h
    cases h
  · rw [left] at h
    rcases Term.remainder?_binary he with ⟨u, z, v, rfl, rfl, hv, rfl⟩ | ⟨notBoth, identity⟩
    · obtain ⟨-, rfl⟩ := Binary.apply_eq_ok.mp hv
      cases h
      exact ⟨u, z, rfl, rfl, rfl⟩
    · -- An operand is left of the sum only if the other one is a number.
      exfalso
      rw [Binary.identity?_eq, Option.map_eq_some_iff] at identity
      obtain ⟨identity, accepted, rfl⟩ := identity
      obtain ⟨mem, accepts⟩ := Binary.accepted?_spec accepted
      obtain ⟨u, hu⟩ := Identity.exists_of_accepts accepts
      simp only [Binary.identities, List.mem_cons, List.not_mem_nil, or_false] at mem
      rcases mem with rfl | rfl
      · exact notBoth u w (Term.number?_eq_some.mp hu) h
      · exact notBoth w u h (Term.number?_eq_some.mp hu)

/-! ### Exact passes -/

theorem exactPass_shift (clear : ¬Mistaken 0 center) : (shift key center).ExactPass r := by
  refine ⟨trivial, trivial, Term.exactTop_of_not_mistaken ?_ nofun⟩
  intro e he x hx
  simp only [Binary.identities, List.mem_cons, List.not_mem_nil, or_false] at he
  subst he
  cases hx
  exact clear

theorem exactPass_power (clear : ¬Mistaken 0 center) (k : Nat) :
    (power key center k).ExactPass r := by
  refine ⟨trivial, exactPass_shift clear,
    Term.exactTop_of_not_mistaken ?_ fun _ => number?_pass_shift⟩
  rw [number?_pass_shift]
  intro e he x hx
  simp only [Binary.identities, List.mem_cons, List.not_mem_nil, or_false] at he
  rcases he with rfl | rfl | rfl | rfl
  · cases hx
  · cases hx
  · cases hx
    exact (not_mistaken_ofNat k).1
  · cases hx
    exact (not_mistaken_ofNat k).2

theorem exactPass_weighted (clear : ¬Mistaken 0 center) (k : Nat)
    (kept : ¬Mistaken 0 c ∧ ¬Mistaken 1 c) : (weighted key center k c).ExactPass r := by
  refine ⟨exactPass_power clear k, trivial, Term.exactTop_of_not_mistaken ?_ nofun⟩
  have one : ∀ x ∈ (power key center k).pass.number?, x = 1 := by
    rw [number?_pass_power]
    simp
  intro e he x hx
  simp only [Binary.identities, List.mem_cons, List.not_mem_nil, or_false] at he
  rcases he with rfl | rfl | rfl | rfl
  · cases hx
    exact kept.1
  · cases hx
    exact kept.2
  · rw [one x hx]
    decide
  · rw [one x hx]
    exact not_mistaken_self 1

/-! ### Values -/

theorem value_weighted (bound : r.value key = .ok x) (h : summand center x k v = .ok w) :
    ∃ c, Binary.div.apply v (factorial k) = .ok c ∧
      (weighted key center k c).value r = .ok w := by
  obtain ⟨c, hc, h⟩ := Except.bind_eq_ok h
  obtain ⟨d, hd, h⟩ := Except.bind_eq_ok h
  obtain ⟨p, hp, h⟩ := Except.bind_eq_ok h
  have shifted : (shift key center).value r = .ok d :=
    Term.value_binary.mpr ⟨x, center, bound, rfl, hd⟩
  have raised : (power key center k).value r = .ok p :=
    Term.value_binary.mpr ⟨d, Float.ofNat k, shifted, rfl, hp⟩
  exact ⟨c, hc, Term.value_binary.mpr ⟨c, p, rfl, raised, h⟩⟩

omit [Elementary] in
theorem finite_weighted (fc : c.isFinite = true) (bound : r.value key = .ok x)
    (fx : x.isFinite = true) (fcenter : center.isFinite = true) (small : k < 2 ^ 64) :
    (weighted key center k c).Finite r := by
  have var : (Term.var key).Finite r := fun y hy => by
    rw [bound, Except.ok.injEq] at hy
    exact hy ▸ fx
  exact ⟨fc, ⟨var, fcenter⟩, isFinite_ofNat small⟩

/-- A sum that begins with the constant term `c₀`: once simplified, it is a number only if
everything else in it is zero. -/
structure Leads (r : Registry) (c₀ : Float) (t : Term Key) : Prop where
  finite : t.Finite r
  exactPass : t.ExactPass r
  number : ∀ u, t.pass = .number u → Agree u c₀

theorem leads_weighted (fc : c₀.isFinite = true) (bound : r.value key = .ok x)
    (fx : x.isFinite = true) (fcenter : center.isFinite = true) (clear : ¬Mistaken 0 center)
    (kept : ¬Mistaken 0 c₀ ∧ ¬Mistaken 1 c₀) : Leads r c₀ (weighted key center 0 c₀) where
  finite := finite_weighted fc bound fx fcenter (by decide)
  exactPass := exactPass_weighted clear 0 kept
  number u h := by
    cases of_pass_weighted_zero fc h
    exact .refl c₀

/-- Another term does not change what the sum leads with. -/
theorem Leads.add (h : Leads r c₀ S) (clear : ¬Mistaken 0 c₀) (finite : T.Finite r)
    (exact : T.ExactPass r) (zero : ∀ z, T.pass = .number z → z = 0) :
    Leads r c₀ (.binary .add S T) where
  finite := ⟨h.finite, finite⟩
  exactPass := by
    refine ⟨exact, h.exactPass, Term.exactTop_of_not_mistaken ?_ nofun⟩
    intro e he y hy
    simp only [Binary.identities, List.mem_cons, List.not_mem_nil, or_false] at he
    rcases he with rfl | rfl
    · exact (h.number y (Term.number?_eq_some.mp hy)).not_mistaken clear
    · rw [zero y (Term.number?_eq_some.mp hy)]
      exact not_mistaken_self 0
  number w hw := by
    obtain ⟨u, z, hu, hz, rfl⟩ := of_reduce_add hw
    have fu : u.isFinite = true := by
      have := h.finite.pass
      rw [hu] at this
      exact this
    rw [zero z hz]
    exact (add_zero_agree (Or.inl rfl) fu).trans (h.number u hu)

/-- The terms that are added are worth their summands, and the sum still leads with `c₀`. -/
theorem addTerms_spec {s₀ s : Float} (bound : r.value (.ofSymbol symbol) = .ok x)
    (fx : x.isFinite = true) (fcenter : center.isFinite = true) (clear : ¬Mistaken 0 center)
    (clear₀ : ¬Mistaken 0 c₀) {S : Term Char} {P : Term Key}
    (same : (S.map Key.ofSymbol).pass = P.pass) (leads : Leads r c₀ P)
    (value : P.value r = .ok s₀) (short : k + 1 + vs.length ≤ 2 ^ 64)
    (finite : ∀ v ∈ vs, v.isFinite = true) (kept : Clear (k + 1) vs)
    (h : addSummands center x (k + 1) s₀ vs = .ok s) :
    ∃ Q, ((addTerms symbol center (k + 1) S vs).map Key.ofSymbol).pass = Q.pass ∧
      Leads r c₀ Q ∧ Q.value r = .ok s := by
  induction vs generalizing S P s₀ k with
  | nil =>
    cases h
    exact ⟨P, same, leads, value⟩
  | cons v vs ih =>
    obtain ⟨y, hy, h⟩ := Except.bind_eq_ok h
    obtain ⟨s₁, hs₁, h⟩ := Except.bind_eq_ok h
    obtain ⟨c, hc, summed⟩ := value_weighted bound hy
    have fc := isFinite_coefficient (finite v List.mem_cons_self) hc
    rw [List.length_cons] at short
    apply ih (S := .binary .add S (term symbol center (k + 1) v))
      (P := .binary .add P (weighted (.ofSymbol symbol) center (k + 1) c))
    · rw [Term.map, Term.pass, Term.pass, same, pass_term hc]
    · exact leads.add clear₀ (finite_weighted fc bound fx fcenter (by omega))
        (exactPass_weighted clear (k + 1) (kept.1 c hc)) fun _ => of_pass_weighted_succ
    · exact Term.value_binary.mpr ⟨s₀, y, value, summed, hs₁⟩
    · omega
    · exact fun v hv => finite v (List.mem_cons_of_mem _ hv)
    · exact kept.2
    · exact h

/-- A pass keeps the value of the polynomial. -/
theorem polynomial_spec (lawful : Elementary.Lawful) {s : Float}
    (bound : r.value (.ofSymbol symbol) = .ok x) (fx : x.isFinite = true)
    (fcenter : center.isFinite = true) (clear : ¬Mistaken 0 center) (short : vs.length ≤ 2 ^ 64)
    (finite : ∀ v ∈ vs, v.isFinite = true) (kept : Clear 0 vs) (h : sum center x vs = .ok s) :
    ∃ w, ((polynomial symbol center vs).map Key.ofSymbol).pass.value r = .ok w ∧
      (w == s) = true := by
  cases vs with
  | nil =>
    cases h
    exact ⟨0, rfl, rfl⟩
  | cons v vs =>
    obtain ⟨s₀, hs₀, h⟩ := Except.bind_eq_ok h
    obtain ⟨c₀, hc₀, value⟩ := value_weighted bound hs₀
    have fc := isFinite_coefficient (finite v List.mem_cons_self) hc₀
    have leads := leads_weighted fc bound fx fcenter clear (kept.1 c₀ hc₀)
    rw [List.length_cons] at short
    obtain ⟨Q, same, leads, value⟩ := addTerms_spec (k := 0) bound fx fcenter clear
      (kept.1 c₀ hc₀).1 (pass_term hc₀) leads value (by omega)
      (fun v hv => finite v (List.mem_cons_of_mem _ hv)) kept.2 h
    obtain ⟨w, hw, agree⟩ := Term.value_pass lawful leads.finite leads.exactPass value
    refine ⟨w, ?_, agree.symm.beq (leads.finite.value value)⟩
    rw [polynomial, same]
    exact hw

end Expansion

end Fluxion
