import Fluxion.Proofs.Derivative.Rule
import Mathlib

/-!
# Terms as real functions

A number stands for the real number that its bits denote and an operator for the real
function of its name. Outside their domains the functions take the values of the library:
what is divided by zero is zero, and so are the logarithm of zero and the square root of
a negative number. At an assignment at which every part that depends on a variable is
inside its domain, the derivative of a term takes the value of its partial derivative.
-/

namespace Fluxion

open Float.Model

noncomputable section

/-- The real number that the bits denote; zero if they denote none. -/
def realOf (x : Float) : ℝ :=
  match x.toModel.unpack with
  | .finite .positive mantissa exponent _ => mantissa * (2 : ℝ) ^ exponent
  | .finite .negative mantissa exponent _ => -(mantissa * (2 : ℝ) ^ exponent)
  | _ => 0

@[simp] theorem realOf_zero : realOf 0 = 0 := rfl

@[simp] theorem realOf_one : realOf 1 = 1 := by
  have h : (1 : Float).toModel.unpack = .finite .positive (2 ^ 52) (-52) (by decide) := rfl
  simp only [realOf, h]
  norm_num

@[simp] theorem realOf_two : realOf 2 = 2 := by
  have h : (2 : Float).toModel.unpack = .finite .positive (2 ^ 52) (-51) (by decide) := rfl
  simp only [realOf, h]
  norm_num

@[simp] theorem realOf_neg_one : realOf (-1) = -1 := by
  have h : (-1 : Float).toModel.unpack = .finite .negative (2 ^ 52) (-52) (by decide) := rfl
  simp only [realOf, h]
  norm_num

def Unary.real (op : Unary) (x : ℝ) : ℝ :=
  match op with
  | exp => Real.exp x
  | sqrt => Real.sqrt x
  | ln => Real.log x
  | sin => Real.sin x
  | cos => Real.cos x
  | tan => Real.tan x
  | cot => Real.cos x / Real.sin x
  | sinh => Real.sinh x
  | cosh => Real.cosh x
  | tanh => Real.tanh x
  | arcsin => Real.arcsin x
  | arccos => Real.arccos x
  | arctan => Real.arctan x
  | arccot => Real.pi / 2 - Real.arctan x

def Binary.real (op : Binary) (x y : ℝ) : ℝ :=
  match op with
  | add => x + y
  | sub => x - y
  | mul => x * y
  | div => x / y
  | pow => x ^ y

/-- Where the function is differentiable. -/
def Unary.Inside (op : Unary) (x : ℝ) : Prop :=
  match op with
  | sqrt | ln => 0 < x
  | tan => Real.cos x ≠ 0
  | cot => Real.sin x ≠ 0
  | arcsin | arccos => -1 < x ∧ x < 1
  | _ => True

def Binary.Inside (op : Binary) (x y : ℝ) : Prop :=
  match op with
  | div => y ≠ 0
  | pow => 0 < x
  | _ => True

namespace Term

def real (ρ : Key → ℝ) : Term Key → ℝ
  | number x => realOf x
  | var key => ρ key
  | unary op t => op.real (t.real ρ)
  | binary op s t => op.real (s.real ρ) (t.real ρ)

/-- Every part that depends on the variable is inside its domain. -/
def Inside (ρ : Key → ℝ) (key : Key) : Term Key → Prop
  | number _ | var _ => True
  | unary op t => (t.dependsOn key = true → op.Inside (t.real ρ)) ∧ t.Inside ρ key
  | binary op s t =>
    (s.dependsOn key = true ∨ t.dependsOn key = true → op.Inside (s.real ρ) (t.real ρ)) ∧
      s.Inside ρ key ∧ t.Inside ρ key

end Term

/-- The value of what a recipe describes. -/
def Recipe.real (operand slope : Side → ℝ) : Recipe → ℝ
  | number x => realOf x
  | .operand side => operand side
  | .slope side => slope side
  | unary op r => op.real (r.real operand slope)
  | binary op r s | rightFirst op r s => op.real (r.real operand slope) (s.real operand slope)

theorem Recipe.real_term (operand slope : Side → Term Key) (ρ : Key → ℝ) (r : Recipe) :
    (r.term operand slope).real ρ =
      r.real (fun side => (operand side).real ρ) fun side => (slope side).real ρ := by
  induction r with
  | number x => rfl
  | operand side => rfl
  | slope side => rfl
  | unary op r ih => rw [Recipe.term, Term.real, Recipe.real, ih]
  | binary op r s ihr ihs => rw [Recipe.term, Term.real, Recipe.real, ihr, ihs]
  | rightFirst op r s ihr ihs => rw [Recipe.term, Term.real, Recipe.real, ihr, ihs]

namespace Unary

variable {u : ℝ → ℝ} {u' x : ℝ}

/-- A constant operand gives a derivative of zero, whatever the operand. -/
theorem real_recipe_zero (op : Unary) (a : ℝ) :
    op.recipe.real (fun _ => a) (fun _ => 0) = 0 := by
  cases op <;> simp [recipe, Recipe.real, Recipe.negated, Unary.real, Binary.real]

/-- The chain rule of the table. -/
theorem hasDerivAt_recipe (op : Unary) (hu : HasDerivAt u u' x) (inside : op.Inside (u x)) :
    HasDerivAt (fun s => op.real (u s)) (op.recipe.real (fun _ => u x) fun _ => u') x := by
  cases op with
  | exp => exact hu.exp
  | sqrt =>
    have h := hu.sqrt (ne_of_gt inside)
    simpa [recipe, Recipe.real, Unary.real, Binary.real, realOf_two] using h
  | ln => exact hu.log (ne_of_gt inside)
  | sin => exact hu.sin
  | cos =>
    refine hu.cos.congr_deriv ?_
    simp [recipe, Recipe.real, Recipe.negated, Unary.real, Binary.real]
  | tan =>
    refine ((Real.hasDerivAt_tan inside).comp x hu).congr_deriv ?_
    simp only [recipe, Recipe.real, Recipe.squared, Unary.real, Binary.real, realOf_two,
      Real.rpow_two]
    ring
  | cot =>
    refine (hu.cos.div hu.sin inside).congr_deriv ?_
    have circle : Real.sin (u x) * Real.sin (u x) + Real.cos (u x) * Real.cos (u x) = 1 := by
      rw [← sq, ← sq]
      exact Real.sin_sq_add_cos_sq (u x)
    simp only [recipe, Recipe.real, Recipe.squared, Recipe.negated, Unary.real, Binary.real,
      realOf_two, realOf_neg_one, Real.rpow_two]
    rw [← mul_div_assoc]
    congr 1
    linear_combination -u' * circle
  | sinh => exact hu.sinh
  | cosh => exact hu.cosh
  | tanh =>
    have same : (fun s => tanh.real (u s)) = fun s => Real.sinh (u s) / Real.cosh (u s) :=
      funext fun s => Real.tanh_eq_sinh_div_cosh (u s)
    rw [same]
    refine (hu.sinh.div hu.cosh (ne_of_gt (Real.cosh_pos (u x)))).congr_deriv ?_
    have hyperbola := Real.cosh_sq (u x)
    simp only [recipe, Recipe.real, Recipe.squared, Unary.real, Binary.real, realOf_two,
      Real.rpow_two]
    congr 1
    linear_combination u' * hyperbola
  | arcsin =>
    have h := Real.hasDerivAt_arcsin (ne_of_gt inside.1) (ne_of_lt inside.2)
    refine (h.comp x hu).congr_deriv ?_
    simp only [recipe, Recipe.real, Recipe.squared, Unary.real, Binary.real, realOf_two,
      realOf_one, Real.rpow_two]
    ring
  | arccos =>
    have h := Real.hasDerivAt_arccos (ne_of_gt inside.1) (ne_of_lt inside.2)
    refine (h.comp x hu).congr_deriv ?_
    simp only [recipe, Recipe.real, Recipe.squared, Recipe.negated, Unary.real, Binary.real,
      realOf_two, realOf_one, realOf_neg_one, Real.rpow_two]
    ring
  | arctan =>
    refine hu.arctan.congr_deriv ?_
    simp only [recipe, Recipe.real, Recipe.squared, Binary.real, realOf_two, realOf_one,
      Real.rpow_two]
    ring
  | arccot =>
    refine (hu.arctan.const_sub (Real.pi / 2)).congr_deriv ?_
    simp only [recipe, Recipe.real, Recipe.squared, Recipe.negated, Binary.real, realOf_two,
      realOf_one, realOf_neg_one, Real.rpow_two]
    ring

end Unary

namespace Binary

variable {u v : ℝ → ℝ} {u' v' x : ℝ}

theorem real_recipe_zero (op : Binary) (a b : ℝ) :
    (op.recipe false false).real (onSides a b) (onSides 0 0) = 0 := by
  cases op <;> simp [recipe, Recipe.real, Recipe.crossProducts, Binary.real, onSides]

theorem hasDerivAt_div (onRight : Bool) (hu : HasDerivAt u u' x) (hv : HasDerivAt v v' x)
    (const : onRight = false → v' = 0) (inside : v x ≠ 0) (onLeft : Bool) :
    HasDerivAt (fun s => u s / v s)
      ((div.recipe onLeft onRight).real (onSides (u x) (v x)) (onSides u' v')) x := by
  refine (hu.div hv inside).congr_deriv ?_
  cases onRight with
  | true =>
    simp only [recipe, Recipe.real, Recipe.crossProducts, Recipe.squared, Binary.real, onSides,
      realOf_two, Real.rpow_two, if_true]
  | false =>
    rw [const rfl]
    simp only [recipe, Recipe.real, Binary.real, onSides, Bool.false_eq_true, if_false]
    field_simp
    ring

theorem hasDerivAt_pow (onLeft onRight : Bool) (hu : HasDerivAt u u' x)
    (hv : HasDerivAt v v' x) (constLeft : onLeft = false → u' = 0)
    (constRight : onRight = false → v' = 0) (inside : 0 < u x) :
    HasDerivAt (fun s => u s ^ v s)
      ((pow.recipe onLeft onRight).real (onSides (u x) (v x)) (onSides u' v')) x := by
  refine (hu.rpow hv inside).congr_deriv ?_
  have power : Real.exp (v x * Real.log (u x)) = u x ^ v x := by
    rw [Real.rpow_def_of_pos inside, mul_comm]
  have lower : u x ^ (v x - 1) = u x ^ v x / u x := Real.rpow_sub_one (ne_of_gt inside) (v x)
  cases onLeft with
  | true =>
    cases onRight with
    | true =>
      simp only [recipe, Recipe.real, Unary.real, Binary.real, onSides, power, lower]
      ring
    | false =>
      rw [constRight rfl]
      simp only [recipe, Recipe.real, Binary.real, onSides, realOf_one]
      ring
  | false =>
    rw [constLeft rfl]
    cases onRight with
    | true =>
      simp only [recipe, Recipe.real, Unary.real, Binary.real, onSides]
      ring
    | false =>
      rw [constRight rfl]
      simp [recipe, Recipe.real]

/-- The rules of the table, where an operand on which the variable has no influence has the
derivative zero. -/
theorem hasDerivAt_recipe (op : Binary) (onLeft onRight : Bool) (hu : HasDerivAt u u' x)
    (hv : HasDerivAt v v' x) (constLeft : onLeft = false → u' = 0)
    (constRight : onRight = false → v' = 0) (inside : op.Inside (u x) (v x)) :
    HasDerivAt (fun s => op.real (u s) (v s))
      ((op.recipe onLeft onRight).real (onSides (u x) (v x)) (onSides u' v')) x := by
  cases op with
  | add => exact hu.add hv
  | sub => exact hu.sub hv
  | mul => exact hu.mul hv
  | div => exact hasDerivAt_div onRight hu hv constRight inside onLeft
  | pow => exact hasDerivAt_pow onLeft onRight hu hv constLeft constRight inside

end Binary

namespace Term

variable {ρ : Key → ℝ} {key : Key}

/-- A variable that does not occur has no influence. -/
theorem real_update {t : Term Key} (h : t.dependsOn key = false) (x : ℝ) :
    t.real (Function.update ρ key x) = t.real ρ := by
  induction t with
  | number y => rfl
  | var k =>
    have ne : k ≠ key := by simpa [dependsOn] using h
    exact Function.update_of_ne ne x ρ
  | unary op t ih => rw [real, real, ih h]
  | binary op s t ihs iht =>
    rw [dependsOn, Bool.or_eq_false_iff] at h
    rw [real, real, ihs h.1, iht h.2]

theorem real_update_self (t : Term Key) : t.real (Function.update ρ key (ρ key)) = t.real ρ := by
  rw [Function.update_eq_self]

theorem real_derivative_unary (op : Unary) (t : Term Key) :
    ((unary op t).derivative key).real ρ =
      op.recipe.real (fun _ => t.real ρ) fun _ => (t.derivative key).real ρ :=
  Recipe.real_term _ _ ρ op.recipe

theorem real_derivative_binary (op : Binary) (s t : Term Key) :
    ((binary op s t).derivative key).real ρ =
      (op.recipe (s.dependsOn key) (t.dependsOn key)).real (onSides (s.real ρ) (t.real ρ))
        (onSides ((s.derivative key).real ρ) ((t.derivative key).real ρ)) := by
  rw [derivative, Recipe.real_term]
  congr 1
  · funext side
    exact map_onSides (fun r : Term Key => r.real ρ) s t side
  · funext side
    exact map_onSides (fun r : Term Key => r.real ρ) _ _ side

/-- The derivative is zero where the variable does not occur, in and outside the domains. -/
theorem real_derivative_of_not_dependsOn {t : Term Key} (h : t.dependsOn key = false) :
    (t.derivative key).real ρ = 0 := by
  induction t with
  | number y => exact realOf_zero
  | var k =>
    have ne : k ≠ key := by simpa [dependsOn] using h
    simp [derivative, ne, real]
  | unary op t ih =>
    rw [real_derivative_unary, ih h]
    exact op.real_recipe_zero _
  | binary op s t ihs iht =>
    rw [dependsOn, Bool.or_eq_false_iff] at h
    rw [real_derivative_binary, ihs h.1, iht h.2, h.1, h.2]
    exact op.real_recipe_zero _ _

/-- The derivative of a term takes the value of the partial derivative. -/
theorem hasDerivAt_derivative {t : Term Key} (inside : t.Inside ρ key) :
    HasDerivAt (fun x => t.real (Function.update ρ key x)) ((t.derivative key).real ρ)
      (ρ key) := by
  -- a term in which the variable does not occur may be outside every domain
  have const {t : Term Key} (h : t.dependsOn key = false) :
      HasDerivAt (fun x => t.real (Function.update ρ key x)) ((t.derivative key).real ρ)
        (ρ key) := by
    simp only [real_update h, real_derivative_of_not_dependsOn h]
    exact hasDerivAt_const (ρ key) (t.real ρ)
  induction t with
  | number y => exact const rfl
  | var k =>
    by_cases he : k = key
    · subst he
      simpa [real, derivative] using hasDerivAt_id' (ρ k)
    · exact const (by simpa [dependsOn] using he)
  | unary op t ih =>
    cases h : t.dependsOn key with
    | false => exact const h
    | true =>
      have chain := op.hasDerivAt_recipe (ih inside.2) (by
        rw [real_update_self]
        exact inside.1 h)
      rw [real_update_self] at chain
      rw [real_derivative_unary]
      exact chain
  | binary op s t ihs iht =>
    by_cases h : s.dependsOn key = true ∨ t.dependsOn key = true
    · have rule := op.hasDerivAt_recipe (s.dependsOn key) (t.dependsOn key) (ihs inside.2.1)
        (iht inside.2.2) real_derivative_of_not_dependsOn real_derivative_of_not_dependsOn (by
          rw [real_update_self, real_update_self]
          exact inside.1 h)
      rw [real_update_self, real_update_self] at rule
      rw [real_derivative_binary]
      exact rule
    · exact const (by simpa [dependsOn] using h)

end Term

end

end Fluxion
