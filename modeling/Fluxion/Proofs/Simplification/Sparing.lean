import Fluxion.Proofs.Arithmetic.Ordinary
import Fluxion.Proofs.Simplification.Value

/-!
# Failures under simplification

An identity drops an operand, and with it whatever fails in that operand. It also drops its
own operation, which refuses results that are subnormal. Where what is dropped has a value
and what is kept is not subnormal, a term has a value after an exact pass only if it had one
before.
-/

namespace Fluxion

/-! ### The table of identities -/

/-- Where what is kept is a zero, the result is not one that vanishes. -/
theorem Identity.vanishes_eq_false {op : Binary} {e : Identity} {x y : Float}
    (he : e ∈ op.identities) (exact : Agree (onSides x y e.side) e.target)
    (zero : IsZero (e.remainder.value x y)) : op.vanishes x y = false := by
  have one : ¬IsZero 1 := by decide
  cases op with
  | add => rfl
  | sub => rfl
  | mul =>
    simp only [Binary.identities, List.mem_cons, List.not_mem_nil, or_false] at he
    rw [Binary.vanishes, Bool.and_eq_false_iff]
    rcases he with rfl | rfl | rfl | rfl
    · exact Or.inl (isZero_of_agree exact).bne_zero
    · exact Or.inr zero.bne_zero
    · exact Or.inr (isZero_of_agree exact).bne_zero
    · exact Or.inl zero.bne_zero
  | div =>
    simp only [Binary.identities, List.mem_cons, List.not_mem_nil, or_false] at he
    subst he
    exact zero.bne_zero
  | pow =>
    simp only [Binary.identities, List.mem_cons, List.not_mem_nil, or_false] at he
    rcases he with rfl | rfl | rfl | rfl
    · exact (isZero_of_agree exact).bne_zero
    · exact absurd zero one
    · exact absurd zero one
    · exact zero.bne_zero

/-- The operand that an identity keeps is not the one that it accepts. -/
theorem Identity.side_of_mem {op : Binary} {e : Identity} (he : e ∈ op.identities) :
    (e.remainder = .left → e.side = .right) ∧ (e.remainder = .right → e.side = .left) := by
  cases op <;> simp only [Binary.identities, List.mem_cons, List.not_mem_nil, or_false] at he
  · rcases he with rfl | rfl <;> simp
  · subst he
    simp
  · rcases he with rfl | rfl | rfl | rfl <;> simp
  · subst he
    simp
  · rcases he with rfl | rfl | rfl | rfl <;> simp

/-! ### What identities drop and keep -/

/-- The operands that are dropped have values, and the one that is kept has no subnormal
value. -/
def Remainder.Spares (lhs rhs : Except Fault Float) : Remainder → Prop
  | constant _ => lhs.isOk = true ∧ rhs.isOk = true
  | left => ∀ x ∈ lhs.toOption, isSubnormal x = false
  | right => ∀ y ∈ rhs.toOption, isSubnormal y = false

instance (lhs rhs : Except Fault Float) : (e : Remainder) → Decidable (e.Spares lhs rhs)
  | .constant _ => inferInstanceAs (Decidable (lhs.isOk = true ∧ rhs.isOk = true))
  | .left => inferInstanceAs (Decidable (∀ x ∈ lhs.toOption, isSubnormal x = false))
  | .right => inferInstanceAs (Decidable (∀ y ∈ rhs.toOption, isSubnormal y = false))

/-- So it is for the identity that applies to the operation, if one does. -/
def Binary.Spares (op : Binary) (x? y? : Option Float) (lhs rhs : Except Fault Float) : Prop :=
  ∀ e ∈ op.identity? x? y?, e.Spares lhs rhs

instance (op : Binary) (x? y? : Option Float) (lhs rhs : Except Fault Float) :
    Decidable (op.Spares x? y? lhs rhs) :=
  inferInstanceAs (Decidable (∀ e ∈ op.identity? x? y?, e.Spares lhs rhs))

variable [Elementary] {r : Registry} {s t : Term Key} {v w : Float}

/-- An operation to which an identity applies raises no signal, unless what is kept is
subnormal. -/
theorem Identity.quiet (lawful : Elementary.Lawful) {op : Binary} {e : Identity} {x y : Float}
    (he : e ∈ op.identities) (fx : x.isFinite = true) (fy : y.isFinite = true)
    (exact : Agree (onSides x y e.side) e.target)
    (positive : op = .pow → e.remainder = .constant 0 → 0 < y)
    (ordinary : Ordinary (e.remainder.value x y)) : op.apply x y = .ok (op.compute x y) := by
  have agree := compute_agree lawful he fx fy exact positive
  refine Binary.apply_eq_ok.mpr ⟨signal?_eq_none (agree.symm.ordinary ordinary) ?_, rfl⟩
  intro zero
  exact vanishes_eq_false he exact (agree.isZero zero)

namespace Term

def SparesTop (r : Registry) : Term Key → Prop
  | binary op s t => s.number? = none ∨ t.number? = none →
      op.Spares s.number? t.number? (s.value r) (t.value r)
  | _ => True

theorem exists_value_of_isOk (h : (t.value r).isOk = true) : ∃ v, t.value r = .ok v := by
  cases ht : t.value r with
  | error e =>
    rw [ht] at h
    cases h
  | ok v => exact ⟨v, rfl⟩

theorem exists_value_of_number? {x : Float} (h : t.number? = some x) : ∃ v, t.value r = .ok v := by
  cases number?_eq_some.mp h
  exact ⟨x, rfl⟩

/-- If what is left of the operands has a value, then so have both of them. -/
theorem exists_operands {op : Binary} {e : Identity} (mem : e ∈ op.identities)
    (accepts : e.accepts s.number? t.number? = true)
    (spares : e.remainder.Spares (s.value r) (t.value r))
    (h : ((binary op s t).leave e.remainder).value r = .ok w) :
    ∃ x y, s.value r = .ok x ∧ t.value r = .ok y := by
  obtain ⟨z, hz⟩ := Identity.exists_of_accepts accepts
  obtain ⟨keepsLeft, keepsRight⟩ := Identity.side_of_mem mem
  cases hr : e.remainder with
  | constant c =>
    rw [hr] at spares
    obtain ⟨x, hx⟩ := exists_value_of_isOk spares.1
    obtain ⟨y, hy⟩ := exists_value_of_isOk spares.2
    exact ⟨x, y, hx, hy⟩
  | left =>
    rw [hr] at h
    rw [keepsLeft hr] at hz
    obtain ⟨y, hy⟩ := exists_value_of_number? hz
    exact ⟨w, y, h, hy⟩
  | right =>
    rw [hr] at h
    rw [keepsRight hr] at hz
    obtain ⟨x, hx⟩ := exists_value_of_number? hz
    exact ⟨x, w, hx, h⟩

theorem ordinary_remainder {op : Binary} {e : Identity} {x y : Float} (mem : e ∈ op.identities)
    (spares : e.remainder.Spares (s.value r) (t.value r)) (hx : s.value r = .ok x)
    (hy : t.value r = .ok y) (fx : x.isFinite = true) (fy : y.isFinite = true) :
    Ordinary (e.remainder.value x y) := by
  cases hr : e.remainder with
  | constant c =>
    rcases Binary.constant_of_mem_identities mem hr with rfl | rfl
    · exact (by decide : Ordinary 0)
    · exact (by decide : Ordinary 1)
  | left =>
    rw [hr] at spares
    exact ⟨fx, spares x (by rw [hx]; rfl)⟩
  | right =>
    rw [hr] at spares
    exact ⟨fy, spares y (by rw [hy]; rfl)⟩

/-- What an identity leaves has a value only if the operation has one. -/
theorem exists_value_of_leave (lawful : Elementary.Lawful) {op : Binary} {e : Remainder}
    (finite : (binary op s t).Finite r) (exact : op.Exact s.number? t.number? (t.value r))
    (spares : op.Spares s.number? t.number? (s.value r) (t.value r))
    (applied : op.identity? s.number? t.number? = some e)
    (h : ((binary op s t).leave e).value r = .ok w) : ∃ v, (binary op s t).value r = .ok v := by
  have spared := spares e applied
  rw [op.identity?_eq, Option.map_eq_some_iff] at applied
  obtain ⟨identity, accepted, rfl⟩ := applied
  obtain ⟨near, positive⟩ := exact identity accepted
  obtain ⟨mem, accepts⟩ := Binary.accepted?_spec accepted
  obtain ⟨x, y, hx, hy⟩ := exists_operands mem accepts spared h
  have fx := finite.1.value hx
  have fy := finite.2.value hy
  refine ⟨op.compute x y, value_binary.mpr ⟨x, y, hx, hy, ?_⟩⟩
  apply Identity.quiet lawful mem fx fy (onSides_agree near accepts hx hy)
  · intro power zero
    obtain ⟨y', hy', pos⟩ := positive power zero
    rw [hy, Except.ok.injEq] at hy'
    exact hy' ▸ pos
  · exact ordinary_remainder mem spared hx hy fx fy

theorem exists_value_of_reduce (lawful : Elementary.Lawful) (finite : t.Finite r)
    (exact : t.ExactTop r) (spares : t.SparesTop r) (h : t.reduce.value r = .ok w) :
    ∃ v, t.value r = .ok v := by
  rcases t.reduce_cases with ⟨-, same⟩ | ⟨e, he, left⟩
  · rw [same] at h
    exact ⟨w, h⟩
  · cases t with
    | number x => simp [remainder?] at he
    | var key => simp [remainder?] at he
    | unary op t =>
      obtain ⟨x, v, rfl, hv, -⟩ := remainder?_unary he
      exact ⟨v, value_unary.mpr ⟨x, rfl, hv⟩⟩
    | binary op s t =>
      rcases remainder?_binary he with ⟨x, y, v, rfl, rfl, hv, -⟩ | ⟨notBoth, applied⟩
      · exact ⟨v, value_binary.mpr ⟨x, y, rfl, rfl, hv⟩⟩
      · rw [left] at h
        exact exists_value_of_leave lawful finite (exact_of_exactTop exact notBoth)
          (spares (number?_eq_none_of_notBoth notBoth)) applied h

theorem agree_pass (lawful : Elementary.Lawful) (finite : t.Finite r)
    (exact : t.EveryTop (ExactTop r)) (hv : t.value r = .ok v) (hw : t.pass.value r = .ok w) :
    Agree v w := by
  obtain ⟨u, hu, agree⟩ := value_pass lawful finite (exactPass_of_everyTop exact) hv
  rw [hw, Except.ok.injEq] at hu
  exact hu ▸ agree

/-- A term has a value if it has one after a pass that is exact and sparing. An operation gets
values that agree with those that its operands had before the pass, and judges them alike. -/
theorem exists_value_of_pass (lawful : Elementary.Lawful) (finite : t.Finite r)
    (exact : t.EveryTop (ExactTop r)) (spares : t.EveryTop (SparesTop r))
    (h : t.pass.value r = .ok w) : ∃ v, t.value r = .ok v := by
  induction t generalizing w with
  | number x => exact ⟨w, h⟩
  | var key => exact ⟨w, h⟩
  | unary op t ih =>
    have finite' : (unary op t.pass).Finite r := Finite.pass (t := t) finite
    obtain ⟨v', hv'⟩ := exists_value_of_reduce lawful finite' exact.2 spares.2 h
    obtain ⟨x', hx', hv'⟩ := value_unary.mp hv'
    obtain ⟨x, hx⟩ := ih finite exact.1 spares.1 hx'
    have agree := agree_pass (t := t) lawful finite exact.1 hx hx'
    obtain ⟨v, hv, -⟩ := Unary.apply_congr lawful agree.symm hv'
    exact ⟨v, value_unary.mpr ⟨x, hx, hv⟩⟩
  | binary op s t ihs iht =>
    obtain ⟨exactRight, exactLeft, exactTop⟩ := exact
    obtain ⟨sparesRight, sparesLeft, sparesTop⟩ := spares
    have finite' : (binary op s.pass t.pass).Finite r := ⟨finite.1.pass, finite.2.pass⟩
    obtain ⟨v', hv'⟩ := exists_value_of_reduce lawful finite' exactTop sparesTop h
    obtain ⟨x', y', hx', hy', hv'⟩ := value_binary.mp hv'
    obtain ⟨x, hx⟩ := ihs finite.1 exactLeft sparesLeft hx'
    obtain ⟨y, hy⟩ := iht finite.2 exactRight sparesRight hy'
    have agreeLeft := agree_pass lawful finite.1 exactLeft hx hx'
    have agreeRight := agree_pass lawful finite.2 exactRight hy hy'
    obtain ⟨v, hv, -⟩ := Binary.apply_congr lawful agreeLeft.symm agreeRight.symm
      (finite'.1.value hx') (finite'.2.value hy') hv'
    exact ⟨v, value_binary.mpr ⟨x, y, hx, hy, hv⟩⟩

end Term

end Fluxion
