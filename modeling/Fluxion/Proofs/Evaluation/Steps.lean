import Fluxion.Proofs.Arithmetic.Exceptions
import Fluxion.Proofs.Evaluation.Recursion
import Fluxion.Proofs.Forest.Consistent

/-!
# Evaluation step by step

The stacks that the evaluation of a node comes to, one step after another. Where every number
and every value below the node is finite, so is everything that is ever on the stack, and no
exceptional result gets there: the operation that has it ends the evaluation with a signal.
-/

namespace Fluxion

/-- The operation of the step, with the operands that it takes from the stack and what it
leaves there. -/
inductive Step.Takes : Step Key → List Float → Operator → Float → Option Float → List Float →
    Prop where
  | unary {op : Unary} {x : Float} {rest : List Float} :
      Takes (.unary op) (x :: rest) (.unary op) x none rest
  | binary {op : Binary} {x y : Float} {rest : List Float} :
      Takes (.binary op) (y :: x :: rest) (.binary op) x (some y) rest

/-- What the step brings in is finite. -/
def Step.Finite (r : Registry) : Step Key → Prop
  | .number x => x.isFinite = true
  | .var key => ∀ x, r.value key = .ok x → x.isFinite = true
  | .unary _ | .binary _ => True

theorem Term.Finite.program {r : Registry} {t : Term Key} (h : t.Finite r) :
    ∀ s ∈ t.program, s.Finite r := by
  induction t with
  | number x => exact List.forall_mem_singleton.mpr h
  | var key => exact List.forall_mem_singleton.mpr h
  | unary op t ih =>
    rw [program_unary, List.forall_mem_append]
    exact ⟨ih h, by simp [Step.Finite]⟩
  | binary op s t ihs iht =>
    rw [program_binary, List.forall_mem_append, List.forall_mem_append]
    exact ⟨⟨ihs h.1, iht h.2⟩, by simp [Step.Finite]⟩

/-- The value of an operator is ordinary. -/
theorem Tree.ordinary_value [Elementary] {r : Registry} {t : Tree} {v : Float}
    (finite : t.term.Finite r) (operator : t.cell.operator?.isSome) (h : t.term.value r = .ok v) :
    Ordinary v := by
  cases t with
  | number i x => cases operator
  | var i key => cases operator
  | unary i op t =>
    obtain ⟨x, hx, hv⟩ := Term.value_unary.mp h
    have operand : t.term.Finite r := finite
    exact Unary.ordinary_apply (operand.value hx) hv
  | binary i op s t =>
    obtain ⟨x, y, hx, hy, hv⟩ := Term.value_binary.mp h
    exact Binary.ordinary_apply (finite.1.value hx) (finite.2.value hy) hv

section

variable [Elementary] {r : Registry} {s : Step Key} {stack stack' rest : List Float}
  {op : Operator} {x : Float} {y? : Option Float} {c : NumericFault}

/-! ### One step -/

namespace Step.Takes

theorem step_eq (h : s.Takes stack op x y? rest) :
    (evaluation r).step stack s = (op.apply x y?).map (· :: rest) := by
  cases h with
  | @unary op x rest =>
    simp only [Algebra.step, evaluation, Operator.apply]
    cases op.apply x <;> rfl
  | @binary op x y rest =>
    simp only [Algebra.step, evaluation, Operator.apply]
    cases op.apply x y <;> rfl

theorem apply_of_exceptional (h : s.Takes stack op x y? rest)
    (finite : ∀ v ∈ stack, v.isFinite = true)
    (exceptional : Exceptional op x y? (op.compute x (y?.getD 0))) :
    ∃ signal, op.apply x y? = .error (.numeric ⟨op, x, y?, signal⟩) := by
  cases h with
  | @unary op x rest =>
    obtain ⟨signal, raised⟩ := Unary.apply_of_exceptional (finite x (by simp)) exceptional
    exact ⟨signal, mapError_numeric_iff.mpr raised⟩
  | @binary op x y rest =>
    obtain ⟨signal, raised⟩ :=
      Binary.apply_of_exceptional (finite x (by simp)) (finite y (by simp)) exceptional
    exact ⟨signal, mapError_numeric_iff.mpr raised⟩

theorem apply_divisionByZero_iff (h : s.Takes stack op x y? rest)
    (finite : ∀ v ∈ stack, v.isFinite = true) :
    op.apply x y? = .error (.numeric ⟨op, x, y?, .divisionByZero⟩) ↔
      (op.compute x (y?.getD 0)).isInf = true ∧ AtPole op x y? := by
  cases h with
  | @unary op x rest =>
    exact mapError_numeric_iff.trans (Unary.apply_divisionByZero_iff (finite x (by simp)))
  | @binary op x y rest =>
    exact mapError_numeric_iff.trans
      (Binary.apply_divisionByZero_iff (finite x (by simp)) (finite y (by simp)))

theorem ordinary_apply (h : s.Takes stack op x y? rest)
    (finite : ∀ v ∈ stack, v.isFinite = true) {v : Float} (hv : op.apply x y? = .ok v) :
    Ordinary v := by
  cases h with
  | @unary op x rest =>
    exact Unary.ordinary_apply (finite x (by simp)) (Except.mapError_eq_ok_iff.mp hv)
  | @binary op x y rest =>
    exact Binary.ordinary_apply (finite x (by simp)) (finite y (by simp))
      (Except.mapError_eq_ok_iff.mp hv)

theorem exists_signal {e : Fault} (h : s.Takes stack op x y? rest)
    (failed : op.apply x y? = .error e) : ∃ signal, e = .numeric ⟨op, x, y?, signal⟩ := by
  cases h with
  | @unary op x rest =>
    obtain ⟨c, raised, rfl⟩ := Except.mapError_eq_error_iff.mp failed
    obtain ⟨signal, -, rfl⟩ := Unary.apply_eq_error.mp raised
    exact ⟨signal, rfl⟩
  | @binary op x y rest =>
    obtain ⟨c, raised, rfl⟩ := Except.mapError_eq_error_iff.mp failed
    obtain ⟨signal, -, rfl⟩ := Binary.apply_eq_error.mp raised
    exact ⟨signal, rfl⟩

omit [Elementary] in
theorem rest_subset (h : s.Takes stack op x y? rest) : rest ⊆ stack := by
  cases h with
  | unary => exact List.subset_cons_self _ _
  | binary => exact List.Subset.trans (List.subset_cons_self _ _) (List.subset_cons_self _ _)

end Step.Takes

/-- A step brings in a number or the value of a variable, or it performs an operation, unless
the stack has too few operands for it. -/
theorem step_cases (r : Registry) (stack : List Float) (s : Step Key) :
    (∃ x, s = .number x ∧ (evaluation r).step stack s = .ok (x :: stack)) ∨
    (∃ key, s = .var key ∧
      (evaluation r).step stack s = (r.value key).map (· :: stack)) ∨
    (evaluation r).step stack s = .error .missingNode ∨
    ∃ op x y? rest, s.Takes stack op x y? rest := by
  cases s with
  | number x => exact .inl ⟨x, rfl, rfl⟩
  | var key =>
    refine .inr (.inl ⟨key, rfl, ?_⟩)
    simp only [Algebra.step, evaluation]
    cases r.value key <;> rfl
  | unary op =>
    rcases stack with _ | ⟨x, rest⟩
    · exact .inr (.inr (.inl rfl))
    · exact .inr (.inr (.inr ⟨_, _, _, _, .unary⟩))
  | binary op =>
    rcases stack with _ | ⟨y, _ | ⟨x, rest⟩⟩
    · exact .inr (.inr (.inl rfl))
    · exact .inr (.inr (.inl rfl))
    · exact .inr (.inr (.inr ⟨_, _, _, _, .binary⟩))

/-- Only an operation raises a signal, and the signal names it with its operands. -/
theorem exists_takes_of_step_numeric
    (h : (evaluation r).step stack s = .error (.numeric c)) :
    ∃ rest, s.Takes stack c.op c.lhs c.rhs rest ∧
      c.op.apply c.lhs c.rhs = .error (.numeric c) := by
  obtain ⟨x, -, done⟩ | ⟨key, -, done⟩ | done | ⟨op, x, y?, rest, takes⟩ := step_cases r stack s
  · rw [done] at h
    cases h
  · rw [done, Except.map_eq_error_iff] at h
    rcases Registry.value_eq_error h with ⟨-, missing⟩ | ⟨e, -, missing⟩ <;> cases missing
  · rw [done] at h
    cases h
  · rw [takes.step_eq, Except.map_eq_error_iff] at h
    obtain ⟨signal, same⟩ := takes.exists_signal h
    cases same
    exact ⟨rest, takes, h⟩

/-- One step keeps everything on the stack finite. -/
theorem isFinite_of_step (finite : ∀ v ∈ stack, v.isFinite = true) (brought : s.Finite r)
    (h : (evaluation r).step stack s = .ok stack') : ∀ v ∈ stack', v.isFinite = true := by
  obtain ⟨x, rfl, done⟩ | ⟨key, rfl, done⟩ | done | ⟨op, x, y?, rest, takes⟩ :=
    step_cases r stack s
  · rw [done] at h
    cases h
    exact List.forall_mem_cons.mpr ⟨brought, finite⟩
  · rw [done] at h
    obtain ⟨x, hx, rfl⟩ := Except.map_eq_ok_iff.mp h
    exact List.forall_mem_cons.mpr ⟨brought x hx, finite⟩
  · rw [done] at h
    cases h
  · rw [takes.step_eq] at h
    obtain ⟨v, hv, rfl⟩ := Except.map_eq_ok_iff.mp h
    have below : ∀ v ∈ rest, v.isFinite = true := fun v hv => finite v (takes.rest_subset hv)
    exact List.forall_mem_cons.mpr ⟨(takes.ordinary_apply finite hv).1, below⟩

/-! ### The run -/

namespace Forest

variable {f : Forest} {i : Nat} {s : Step Key} {stack : List Float} {steps : List (Step Key)}
  {e : Fault}

/-- The evaluation of the node comes to the stack and has the steps still to do. -/
inductive ComesTo (f : Forest) (i : Nat) : List Float → List (Step Key) → Prop where
  | start : ComesTo f i [] (f.program i)
  | step {stack stack' : List Float} {s : Step Key} {steps : List (Step Key)}
      (before : ComesTo f i stack (s :: steps))
      (done : (evaluation f.registry).step stack s = .ok stack') : ComesTo f i stack' steps

/-- A result that is on the stack at some time. -/
def Intermediate (f : Forest) (i : Nat) (v : Float) : Prop :=
  ∃ stack steps, f.ComesTo i stack steps ∧ v ∈ stack

/-- The evaluation of the node comes to the operation with these operands. -/
def Performs (f : Forest) (i : Nat) (op : Operator) (x : Float) (y? : Option Float) : Prop :=
  ∃ stack s steps rest, f.ComesTo i stack (s :: steps) ∧ s.Takes stack op x y? rest

namespace ComesTo

theorem foldlM_eq (h : f.ComesTo i stack steps) :
    (f.program i).foldlM (evaluation f.registry).step [] =
      steps.foldlM (evaluation f.registry).step stack := by
  induction h with
  | start => rfl
  | step _ done ih =>
    rw [ih, List.foldlM_cons, done]
    rfl

/-- The first step that fails ends the evaluation. -/
theorem evaluate_of_error (h : f.ComesTo i stack (s :: steps)) (present : i < f.size)
    (failed : (evaluation f.registry).step stack s = .error e) : f.evaluate i = .error e := by
  have there : f.absent? i = none := if_pos present
  rw [evaluate, there]
  simp only [Algebra.run]
  rw [h.foldlM_eq, List.foldlM_cons, failed]
  rfl

/-- The first operation that fails ends the evaluation. -/
theorem evaluate_of_apply_error (h : f.ComesTo i stack (s :: steps)) (present : i < f.size)
    (takes : s.Takes stack op x y? rest) (failed : op.apply x y? = .error e) :
    f.evaluate i = .error e := by
  apply h.evaluate_of_error present
  rw [takes.step_eq, failed]
  rfl

/-- A run keeps everything on the stack finite. -/
theorem finite (brought : ∀ s ∈ f.program i, s.Finite f.registry)
    (h : f.ComesTo i stack steps) :
    (∀ v ∈ stack, v.isFinite = true) ∧ ∀ s ∈ steps, s.Finite f.registry := by
  induction h with
  | start => exact ⟨by simp, brought⟩
  | step _ done ih =>
    obtain ⟨first, later⟩ := List.forall_mem_cons.mp ih.2
    exact ⟨isFinite_of_step ih.1 first done, later⟩

/-- A failure on the way is that of a step. -/
theorem exists_of_error (h : f.ComesTo i stack steps)
    (failed : steps.foldlM (evaluation f.registry).step stack = .error e) :
    ∃ stack s steps, f.ComesTo i stack (s :: steps) ∧
      (evaluation f.registry).step stack s = .error e := by
  induction steps generalizing stack with
  | nil => cases failed
  | cons s steps ih =>
    rw [List.foldlM_cons] at failed
    rcases Except.bind_eq_error failed with here | ⟨stack', done, later⟩
    · exact ⟨stack, s, steps, h, here⟩
    · exact ih (h.step done) later

end ComesTo

/-- An evaluation fails as one of its steps does, unless there is nothing to evaluate. -/
theorem evaluate_eq_error (h : f.evaluate i = .error e) :
    f.absent? i = some e ∨ e = .missingNode ∨ ∃ stack s steps, f.ComesTo i stack (s :: steps) ∧
      (evaluation f.registry).step stack s = .error e := by
  rw [evaluate] at h
  split at h
  · next e' absent =>
    cases h
    exact .inl absent
  · refine .inr ?_
    rcases Except.bind_eq_error h with failed | ⟨stack, -, h⟩
    · exact .inr (ComesTo.start.exists_of_error failed)
    · split at h <;> cases h
      exact .inl rfl

/-- A signal is that of an operation that the evaluation comes to. -/
theorem exists_takes_of_evaluate_numeric (h : f.evaluate i = .error (.numeric c)) :
    ∃ stack s steps rest, f.ComesTo i stack (s :: steps) ∧ s.Takes stack c.op c.lhs c.rhs rest ∧
      c.op.apply c.lhs c.rhs = .error (.numeric c) := by
  obtain absent | missing | ⟨stack, s, steps, reached, failed⟩ := evaluate_eq_error h
  · simp [absent?] at absent
  · cases missing
  · obtain ⟨rest, takes, raised⟩ := exists_takes_of_step_numeric failed
    exact ⟨stack, s, steps, rest, reached, takes, raised⟩

/-- No exceptional result passes silently. Where all numbers and values below a node are finite,
everything on the way of its evaluation is finite, the result of an operator is ordinary, and
what is exceptional ends the evaluation with a signal that names the operation and its operands:
as a division by zero if it is infinite at a pole, and only then. -/
theorem evaluate_signals (f : Forest) (i : Nat) (acyclic : f.AcyclicFrom i)
    (numbers : ∀ j x, Relation.ReflTransGen (fun a b => b ∈ f.slots a) i j →
      f.cells[j]? = some (.number x) → x.isFinite = true)
    (values : ∀ j key x, Relation.ReflTransGen (fun a b => b ∈ f.slots a) i j →
      f.cells[j]? = some (.var key) → f.registry.value key = .ok x → x.isFinite = true) :
    (∀ v, f.Intermediate i v → v.isFinite = true) ∧
    (∀ v, f.evaluate i = .ok v → v.isFinite = true ∧
      ∀ c, f.cells[i]? = some c → c.operator?.isSome → isSubnormal v = false) ∧
    (∀ op x y?, f.Performs i op x y? → Exceptional op x y? (op.compute x (y?.getD 0)) →
      ∃ signal, f.evaluate i = .error (.numeric ⟨op, x, y?, signal⟩)) ∧
    (∀ op x y?, f.evaluate i = .error (.numeric ⟨op, x, y?, .divisionByZero⟩) ↔
      f.Performs i op x y? ∧ (op.compute x (y?.getD 0)).isInf = true ∧ AtPole op x y?) := by
  obtain ⟨t, rfl, fits⟩ := acyclic.exists_tree
  have finite : t.term.Finite f.registry := fits.finite
    (fun j hj x => numbers j x (reachable_of_mem_nodes fits hj))
    (fun j hj key x => values j key x (reachable_of_mem_nodes fits hj))
  have brought : ∀ s ∈ f.program t.top, s.Finite f.registry := program_eq fits ▸ finite.program
  have onStack {stack : List Float} {steps : List (Step Key)} (h : f.ComesTo t.top stack steps) :
      ∀ v ∈ stack, v.isFinite = true := (h.finite brought).1
  refine ⟨?_, ?_, ?_, ?_⟩
  · rintro v ⟨stack, steps, h, mem⟩
    exact onStack h v mem
  · intro v hv
    rw [fits.evaluate_eq] at hv
    refine ⟨finite.value hv, ?_⟩
    intro c hc operator
    rw [fits.cell, Option.some.injEq] at hc
    subst hc
    exact (Tree.ordinary_value finite operator hv).2
  · rintro op x y? ⟨stack, s, steps, rest, h, takes⟩ exceptional
    obtain ⟨signal, raised⟩ := takes.apply_of_exceptional (onStack h) exceptional
    exact ⟨signal, h.evaluate_of_apply_error fits.top_lt takes raised⟩
  · intro op x y?
    constructor
    · intro failed
      obtain ⟨stack, s, steps, rest, h, takes, raised⟩ := exists_takes_of_evaluate_numeric failed
      exact ⟨⟨stack, s, steps, rest, h, takes⟩,
        (takes.apply_divisionByZero_iff (onStack h)).mp raised⟩
    · rintro ⟨⟨stack, s, steps, rest, h, takes⟩, pole⟩
      have raised := (takes.apply_divisionByZero_iff (onStack h)).mpr pole
      exact h.evaluate_of_apply_error fits.top_lt takes raised

end Forest

end

namespace Forest

/-- The forest of the squared sum, where `x` is 2. -/
def boundSum : Forest := { squaredSum with registry := ⟨[⟨'x', some 2⟩]⟩ }

/-- The quotient in the sum has finite operands and an infinite result. -/
theorem evaluate_boundSum : boundSum.AcyclicFrom 5 ∧
    boundSum.Performs 5 (.binary .div) 1 (some 0) ∧
    boundSum.evaluate 5 = .error (.numeric ⟨.binary .div, 1, some 0, .divisionByZero⟩) := by
  have acyclic : boundSum.AcyclicFrom 5 := isSome_term?_iff.mp (by decide)
  have values (key : Key) (x : Float) (hx : boundSum.registry.value key = .ok x) :
      x.isFinite = true := by
    unfold Registry.value at hx
    split at hx
    · cases hx
    · next e found =>
      have mem := List.mem_of_find?_eq_some found
      rw [boundSum, List.mem_singleton] at mem
      subst mem
      cases hx
      decide
  obtain ⟨-, -, -, pole⟩ := evaluate_signals boundSum 5 acyclic
    (fun j x _ => isFinite_of_number? (by decide)) fun j key x _ _ => values key x
  have performs : boundSum.Performs 5 (.binary .div) 1 (some 0) := by
    have first : boundSum.ComesTo 5 [2] _ := .step .start rfl
    have second : boundSum.ComesTo 5 [1, 2] _ := .step first rfl
    have third : boundSum.ComesTo 5 [0, 1, 2] _ := .step second rfl
    exact ⟨_, _, _, _, third, .binary⟩
  refine ⟨acyclic, performs, (pole _ _ _).mpr ⟨performs, ?_, .div ?_⟩⟩
  · decide
  · decide

end Forest

end Fluxion
