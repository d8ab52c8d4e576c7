import Fluxion.Derivative.Recipe
import Fluxion.Proofs.Arithmetic.Signals
import Fluxion.Simplification

/-!
# Identities

The identities of an operator as a table, in the order in which they are tried. One that is
applied to an operand that is exactly its number, and not only near it, keeps the value.
-/

namespace Fluxion

/-- An operand near the target lets the operation be replaced by the remainder. -/
structure Identity where
  side : Side
  target : Float
  remainder : Remainder

namespace Identity

def accepts (e : Identity) (x? y? : Option Float) : Bool := near e.target (onSides x? y? e.side)

theorem exists_of_accepts {e : Identity} {x? y? : Option Float} (h : e.accepts x? y? = true) :
    ∃ x, onSides x? y? e.side = some x := by
  cases he : onSides x? y? e.side with
  | none => simp [accepts, near, he] at h
  | some x => exact ⟨x, rfl⟩

end Identity

namespace Binary

def identities : Binary → List Identity
  | mul => [⟨.left, 0, .constant 0⟩, ⟨.left, 1, .right⟩, ⟨.right, 0, .constant 0⟩,
      ⟨.right, 1, .left⟩]
  | add => [⟨.left, 0, .right⟩, ⟨.right, 0, .left⟩]
  | sub => [⟨.right, 0, .left⟩]
  | div => [⟨.right, 1, .left⟩]
  | pow => [⟨.left, 0, .constant 0⟩, ⟨.left, 1, .constant 1⟩, ⟨.right, 0, .constant 1⟩,
      ⟨.right, 1, .left⟩]

/-- The first identity of the table that accepts its operand. -/
def accepted? (op : Binary) (x? y? : Option Float) : Option Identity :=
  op.identities.find? fun e => e.accepts x? y?

theorem accepted?_spec {op : Binary} {x? y? : Option Float} {e : Identity}
    (h : op.accepted? x? y? = some e) : e ∈ op.identities ∧ e.accepts x? y? = true := by
  rw [accepted?] at h
  exact ⟨List.mem_of_find?_eq_some h, List.find?_some (p := fun e : Identity => e.accepts x? y?) h⟩

/-- What is put in the place of an operation is 0 or 1. -/
theorem constant_of_mem_identities {op : Binary} {e : Identity} (h : e ∈ op.identities) {c : Float}
    (hc : e.remainder = .constant c) : c = 0 ∨ c = 1 := by
  cases op <;>
    simp only [identities, List.mem_cons, List.not_mem_nil, or_false] at h
  · rcases h with rfl | rfl <;> cases hc
  · subst h
    cases hc
  · rcases h with rfl | rfl | rfl | rfl <;> cases hc <;> simp
  · subst h
    cases hc
  · rcases h with rfl | rfl | rfl | rfl <;> cases hc <;> simp

theorem isFinite_of_mem_identities {op : Binary} {e : Identity} (h : e ∈ op.identities) {c : Float}
    (hc : e.remainder = .constant c) : c.isFinite = true := by
  rcases constant_of_mem_identities h hc with rfl | rfl <;> rfl

theorem identity?_eq (op : Binary) (x? y? : Option Float) :
    op.identity? x? y? = (op.accepted? x? y?).map Identity.remainder := by
  cases op <;>
    simp only [identity?, accepted?, identities, List.find?_cons, List.find?_nil,
      Identity.accepts, onSides] <;>
    cases near 0 x? <;> cases near 1 x? <;> cases near 0 y? <;> cases near 1 y? <;> rfl

/-- The number that the identity takes for 0 or 1 is 0 or 1, and a power of zero is replaced
by zero only if the value of its exponent is positive. -/
def Exact (op : Binary) (x? y? : Option Float) (exponent : Except Fault Float) : Prop :=
  ∀ e ∈ op.accepted? x? y?,
    (∀ x ∈ onSides x? y? e.side, Agree x e.target) ∧
    (op = .pow → e.remainder = .constant 0 → ∃ y, exponent = .ok y ∧ 0 < y)

instance (exponent : Except Fault Float) : Decidable (∃ y, exponent = .ok y ∧ 0 < y) :=
  match exponent with
  | .ok y => decidable_of_iff (0 < y) (by simp)
  | .error _ => isFalse (by simp)

instance (op : Binary) (x? y? : Option Float) (exponent : Except Fault Float) :
    Decidable (op.Exact x? y? exponent) :=
  inferInstanceAs (Decidable (∀ e ∈ op.accepted? x? y?,
    (∀ x ∈ onSides x? y? e.side, Agree x e.target) ∧
    (op = .pow → e.remainder = .constant 0 → ∃ y, exponent = .ok y ∧ 0 < y)))

end Binary

theorem Binary.constant_of_identity? {op : Binary} {x? y? : Option Float} {c : Float}
    (h : op.identity? x? y? = some (.constant c)) : c = 0 ∨ c = 1 := by
  rw [op.identity?_eq, Option.map_eq_some_iff] at h
  obtain ⟨e, accepted, remainder⟩ := h
  exact constant_of_mem_identities (accepted?_spec accepted).1 remainder

/-- What the remainder is worth, given the values of the operands. -/
def Remainder.value (x y : Float) : Remainder → Float
  | constant v => v
  | left => x
  | right => y

theorem eq_one_of_agree {x : Float} (h : Agree x 1) : x = 1 := by
  rcases h with h | ⟨-, h | h⟩
  · exact h
  · exact absurd h (by decide)
  · exact absurd h (by decide)

theorem isZero_of_agree {x : Float} (h : Agree x 0) : IsZero x :=
  h.symm.isZero (Or.inl rfl)

theorem IsZero.agree {x : Float} (h : IsZero x) : Agree x 0 := Or.inr ⟨h, Or.inl rfl⟩

/-! ### Numbers that are taken for others -/

/-- Simplification takes the number for the target, although it is another one. -/
def Mistaken (target x : Float) : Prop := near target (some x) = true ∧ ¬Agree x target

instance (target x : Float) : Decidable (Mistaken target x) :=
  inferInstanceAs (Decidable (near target (some x) = true ∧ ¬Agree x target))

theorem not_mistaken_self (x : Float) : ¬Mistaken x x := fun h => h.2 (.refl x)

/-- The sign of a zero does not matter. -/
theorem Agree.not_mistaken {x y : Float} (h : Agree x y) (clear : ¬Mistaken 0 y) :
    ¬Mistaken 0 x := by
  rintro ⟨close, other⟩
  refine clear ⟨?_, fun agree => other (h.trans agree)⟩
  rw [← close]
  exact (h.test (p := fun x => near 0 (some x)) rfl).symm

theorem Binary.exact_of_not_mistaken {op : Binary} {x? y? : Option Float}
    {exponent : Except Fault Float}
    (clear : ∀ e ∈ op.identities, ∀ x ∈ onSides x? y? e.side, ¬Mistaken e.target x)
    (base : op = .pow → x? = none) : op.Exact x? y? exponent := by
  intro e he
  obtain ⟨mem, accepts⟩ := accepted?_spec he
  constructor
  · intro x hx
    by_contra other
    rw [Identity.accepts, Option.mem_def.mp hx] at accepts
    exact clear e mem x hx ⟨accepts, other⟩
  · intro power zero
    subst power
    rw [base rfl] at accepts
    simp only [identities, List.mem_cons, List.not_mem_nil, or_false] at mem
    rcases mem with rfl | rfl | rfl | rfl
    · cases accepts
    · cases accepts
    · exact absurd zero (by decide)
    · cases zero

/-! ### Soundness -/

variable [Elementary]

/-- An identity whose operand agrees with its target computes the same. -/
theorem Identity.compute_agree (lawful : Elementary.Lawful) {op : Binary} {e : Identity}
    {x y : Float} (he : e ∈ op.identities) (fx : x.isFinite = true) (fy : y.isFinite = true)
    (exact : Agree (onSides x y e.side) e.target)
    (positive : op = .pow → e.remainder = .constant 0 → 0 < y) :
    Agree (op.compute x y) (e.remainder.value x y) := by
  cases op with
  | add =>
    simp only [Binary.identities, List.mem_cons, List.not_mem_nil, or_false] at he
    rcases he with rfl | rfl
    · exact zero_add_agree (isZero_of_agree exact) fy
    · exact add_zero_agree (isZero_of_agree exact) fx
  | sub =>
    simp only [Binary.identities, List.mem_cons, List.not_mem_nil, or_false] at he
    subst he
    exact sub_zero_agree (isZero_of_agree exact) fx
  | mul =>
    simp only [Binary.identities, List.mem_cons, List.not_mem_nil, or_false] at he
    rcases he with rfl | rfl | rfl | rfl
    · exact (zero_mul_of_finite (isZero_of_agree exact) fy).agree
    · cases eq_one_of_agree exact
      exact Or.inl (one_mul_of_finite fy)
    · exact (mul_zero_of_finite (isZero_of_agree exact) fx).agree
    · cases eq_one_of_agree exact
      exact Or.inl (mul_one_of_finite fx)
  | div =>
    simp only [Binary.identities, List.mem_cons, List.not_mem_nil, or_false] at he
    subst he
    cases eq_one_of_agree exact
    exact Or.inl (div_one_of_finite fx)
  | pow =>
    simp only [Binary.identities, List.mem_cons, List.not_mem_nil, or_false] at he
    rcases he with rfl | rfl | rfl | rfl
    · exact (lawful.zero_pow x y (isZero_of_agree exact) fy (positive rfl rfl)).agree
    · cases eq_one_of_agree exact
      exact Or.inl (lawful.one_pow y fy)
    · exact Or.inl (lawful.pow_zero x y fx (isZero_of_agree exact))
    · cases eq_one_of_agree exact
      exact lawful.pow_one x fx

/-- It keeps the value of the operation. -/
theorem Identity.sound (lawful : Elementary.Lawful) {op : Binary} {e : Identity} {x y v : Float}
    (he : e ∈ op.identities) (fx : x.isFinite = true) (fy : y.isFinite = true)
    (exact : Agree (onSides x y e.side) e.target)
    (positive : op = .pow → e.remainder = .constant 0 → 0 < y) (h : op.apply x y = .ok v) :
    Agree v (e.remainder.value x y) := by
  obtain ⟨-, rfl⟩ := Binary.apply_eq_ok.mp h
  exact compute_agree lawful he fx fy exact positive

end Fluxion
