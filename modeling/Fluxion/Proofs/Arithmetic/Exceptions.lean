import Fluxion.Proofs.Arithmetic.Ordinary
import Fluxion.Proofs.Sequencing

/-!
# Exceptional results

Which results of an operation on finite numbers are refused, and which of them as divisions by
zero, said without regard to the order in which the judgement asks its questions.
-/

namespace Fluxion

/-! ### Signals -/

section

variable {xs : List Float} {pole vanishes : Bool} {v : Float}

theorem signal?_ne_none (finite : xs.all Float.isFinite = true)
    (h : v.isNaN = true ∨ v.isInf = true ∨ isSubnormal v = true ∨
      (v == 0) = true ∧ vanishes = true) : signal? xs pole vanishes v ≠ none := by
  intro quiet
  have ordinary := isFinite_of_signal?_eq_none finite quiet
  rcases h with nan | inf | subnormal | ⟨zero, vanished⟩
  · rw [isNaN_of_isFinite ordinary] at nan
    cases nan
  · rw [isInf_of_isFinite ordinary] at inf
    cases inf
  · rw [isSubnormal_of_signal?_eq_none ordinary quiet] at subnormal
    cases subnormal
  · simp only [signal?, isNaN_of_isFinite ordinary, isInf_of_isFinite ordinary,
      isSubnormal_of_signal?_eq_none ordinary quiet, zero, finite, vanished, Bool.false_eq_true,
      Bool.and_true, if_true, if_false] at quiet
    cases quiet

theorem signal?_eq_divisionByZero_iff (finite : xs.all Float.isFinite = true) :
    signal? xs pole vanishes v = some .divisionByZero ↔ v.isInf = true ∧ pole = true := by
  simp only [signal?, any_isNaN_of_isFinite finite, finite, Bool.false_eq_true, Bool.not_true,
    if_false, Bool.and_true]
  cases inf : v.isInf with
  | true =>
    rw [isNaN_of_isInf inf]
    cases pole <;> simp
  | false =>
    simp only [Bool.false_eq_true, if_false, false_and, iff_false]
    repeat' split
    all_goals decide

end

/-! ### Operations -/

theorem mapError_numeric_iff {α : Type} {x : Except NumericFault α} {c : NumericFault} :
    x.mapError Fault.numeric = .error (.numeric c) ↔ x = .error c := by
  simp [Except.mapError_eq_error_iff]

/-- The operators that may come to zero because the exact result is too small. -/
def Operator.vanishing : List Operator := [.binary .mul, .binary .div, .binary .pow, .unary .exp]

/-- Results that must not pass for numbers: what is not a number, the infinities, the subnormals,
and the zeros to which operands other than zero have vanished. -/
def Exceptional (op : Operator) (x : Float) (y? : Option Float) (v : Float) : Prop :=
  v.isNaN = true ∨ v.isInf = true ∨ isSubnormal v = true ∨
    ((v == 0) = true ∧ op ∈ Operator.vanishing ∧ (x == 0) = false ∧ ∀ y ∈ y?, (y == 0) = false)

/-- What is exceptional raises a signal, where the judgement knows all that must not vanish. -/
theorem Exceptional.exists_signal {op : Operator} {xs : List Float} {vanishes : Bool}
    {x v : Float} {y? : Option Float} (h : Exceptional op x y? v) (pole : Bool)
    (finite : xs.all Float.isFinite = true)
    (known : op ∈ Operator.vanishing → (x == 0) = false → (∀ y ∈ y?, (y == 0) = false) →
      vanishes = true) : ∃ s, signal? xs pole vanishes v = some s := by
  apply Option.ne_none_iff_exists'.mp
  apply signal?_ne_none finite
  refine h.imp_right (Or.imp_right (Or.imp_right ?_))
  rintro ⟨zero, mem, left, right⟩
  exact ⟨zero, known mem left right⟩

theorem Unary.vanishes_of_mem {op : Unary} (h : .unary op ∈ Operator.vanishing) :
    op.vanishes = true := by
  cases op <;> first | rfl | exact absurd h (by decide)

theorem Binary.vanishes_of_mem {op : Binary} {x y : Float} (h : .binary op ∈ Operator.vanishing)
    (hx : (x == 0) = false) (hy : (y == 0) = false) : op.vanishes x y = true := by
  cases op <;> first | exact absurd h (by decide) | simp [vanishes, bne, hx, hy]

variable [Elementary] {x y : Float} {y? : Option Float}

/-- The operands at which the exact result is an infinity. -/
inductive AtPole : Operator → Float → Option Float → Prop where
  | div {x y : Float} (zero : (y == 0) = true) : AtPole (.binary .div) x (some y)
  | ln {x : Float} (zero : (x == 0) = true) : AtPole (.unary .ln) x none
  | pow {x y : Float} (zero : (x == 0) = true) (negative : y < 0) :
      AtPole (.binary .pow) x (some y)
  | cot {x : Float} (zero : (Elementary.sin x == 0) = true) : AtPole (.unary .cot) x none

namespace Unary

variable {op : Unary}

theorem atPole_iff : AtPole (.unary op) x none ↔ op.pole x = true := by
  constructor
  · intro h
    cases h with
    | ln zero | cot zero => exact zero
  · intro h
    cases op with
    | ln => exact .ln h
    | cot => exact .cot h
    | _ => cases h

theorem apply_eq_error {c : NumericFault} : op.apply x = .error c ↔
    ∃ s, signal? [x] (op.pole x) op.vanishes (op.compute x) = some s ∧
      c = ⟨.unary op, x, none, s⟩ := by
  rw [apply]
  cases signal? [x] (op.pole x) op.vanishes (op.compute x) with
  | none => simp
  | some s => simp [eq_comm]

theorem apply_of_exceptional (hx : x.isFinite = true)
    (h : Exceptional (.unary op) x none (op.compute x)) :
    ∃ s, op.apply x = .error ⟨.unary op, x, none, s⟩ := by
  have finite : [x].all Float.isFinite = true := by simp [hx]
  obtain ⟨s, hs⟩ := h.exists_signal (op.pole x) finite fun mem _ _ => vanishes_of_mem mem
  exact ⟨s, apply_eq_error.mpr ⟨s, hs, rfl⟩⟩

theorem apply_divisionByZero_iff (hx : x.isFinite = true) :
    op.apply x = .error ⟨.unary op, x, none, .divisionByZero⟩ ↔
      (op.compute x).isInf = true ∧ AtPole (.unary op) x none := by
  rw [atPole_iff]
  calc
    _ ↔ signal? [x] (op.pole x) op.vanishes (op.compute x) = some .divisionByZero := by
      simp [apply_eq_error]
    _ ↔ _ := signal?_eq_divisionByZero_iff (by simp [hx])

end Unary

namespace Binary

variable {op : Binary}

theorem atPole_iff : AtPole (.binary op) x (some y) ↔ op.pole x y = true := by
  constructor
  · intro h
    cases h with
    | div zero => exact zero
    | pow zero negative => simp [pole, zero, negative]
  · intro h
    cases op with
    | div => exact .div h
    | pow =>
      rw [pole, Bool.and_eq_true, decide_eq_true_eq] at h
      exact .pow h.1 h.2
    | _ => cases h

theorem apply_eq_error {c : NumericFault} : op.apply x y = .error c ↔
    ∃ s, signal? [x, y] (op.pole x y) (op.vanishes x y) (op.compute x y) = some s ∧
      c = ⟨.binary op, x, some y, s⟩ := by
  rw [apply]
  cases signal? [x, y] (op.pole x y) (op.vanishes x y) (op.compute x y) with
  | none => simp
  | some s => simp [eq_comm]

theorem apply_of_exceptional (hx : x.isFinite = true) (hy : y.isFinite = true)
    (h : Exceptional (.binary op) x (some y) (op.compute x y)) :
    ∃ s, op.apply x y = .error ⟨.binary op, x, some y, s⟩ := by
  have finite : [x, y].all Float.isFinite = true := by simp [hx, hy]
  obtain ⟨s, hs⟩ := h.exists_signal (op.pole x y) finite fun mem left right =>
    vanishes_of_mem mem left (right y rfl)
  exact ⟨s, apply_eq_error.mpr ⟨s, hs, rfl⟩⟩

theorem apply_divisionByZero_iff (hx : x.isFinite = true) (hy : y.isFinite = true) :
    op.apply x y = .error ⟨.binary op, x, some y, .divisionByZero⟩ ↔
      (op.compute x y).isInf = true ∧ AtPole (.binary op) x (some y) := by
  rw [atPole_iff]
  calc
    _ ↔ signal? [x, y] (op.pole x y) (op.vanishes x y) (op.compute x y) =
        some .divisionByZero := by simp [apply_eq_error]
    _ ↔ _ := signal?_eq_divisionByZero_iff (by simp [hx, hy])

end Binary

end Fluxion
