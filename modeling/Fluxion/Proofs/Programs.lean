import Fluxion.Postfix

/-!
# What a postfix program does

The program of a term puts one result on the stack: what recursion on the term gives.
-/

namespace Fluxion

namespace Term

variable {ν μ : Type}

@[simp] theorem program_number (x : Float) : (number x : Term ν).program = [.number x] := rfl

@[simp] theorem program_var (n : ν) : (var n).program = [.var n] := rfl

@[simp] theorem program_unary (op : Unary) (t : Term ν) :
    (unary op t).program = t.program ++ [.unary op] :=
  t.postfixOnto_eq [.unary op]

@[simp] theorem program_binary (op : Binary) (s t : Term ν) :
    (binary op s t).program = s.program ++ t.program ++ [.binary op] := by
  have ht := t.postfixOnto_eq [.binary op]
  have hs := s.postfixOnto_eq (t.program ++ [.binary op])
  rw [program, postfixOnto, ht, hs, List.append_assoc]

theorem map_id (t : Term ν) : t.map id = t := by
  induction t with
  | number x => rfl
  | var n => rfl
  | unary op t ih => rw [map, ih]
  | binary op s t ihs iht => rw [map, ihs, iht]

theorem size_map (f : ν → μ) (t : Term ν) : (t.map f).size = t.size := by
  induction t with
  | number x => rfl
  | var n => rfl
  | unary op t ih => rw [map, size, size, ih]
  | binary op s t ihs iht => rw [map, size, size, ihs, iht]

theorem names_map (f : ν → μ) (t : Term ν) : (t.map f).names = t.names.map f := by
  induction t with
  | number x => rfl
  | var n => rfl
  | unary op t ih => rw [map, names, names, ih]
  | binary op s t ihs iht => rw [map, names, names, ihs, iht, List.map_append]

end Term

/-- How many results the step takes from the stack. -/
def Step.operands {ν : Type} : Step ν → Nat
  | number _ | var _ => 0
  | unary _ => 1
  | binary _ => 2

namespace Algebra

variable {m : Type → Type} {ν α : Type} [Monad m] [LawfulMonad m] [MonadExceptOf Fault m]

/-- The result of the term comes onto the stack, whatever a step would do that lacks an operand. -/
theorem foldlM_program_of_step (alg : Algebra m ν α) {step : List α → Step ν → m (List α)}
    (same : ∀ stack s, s.operands ≤ stack.length → step stack s = alg.step stack s) (t : Term ν)
    (stack : List α) : t.program.foldlM step stack = (· :: stack) <$> t.foldM alg := by
  induction t generalizing stack with
  | number x =>
    rw [Term.program_number, List.foldlM_cons, same stack _ (Nat.zero_le _)]
    simp [Algebra.step, Term.foldM]
  | var n =>
    rw [Term.program_var, List.foldlM_cons, same stack _ (Nat.zero_le _)]
    simp [Algebra.step, Term.foldM]
  | unary op t ih =>
    have enough (a : α) : step (a :: stack) (.unary op) = alg.step (a :: stack) (.unary op) :=
      same _ _ (by simp [Step.operands])
    simp [List.foldlM_append, ih, enough, Algebra.step, Term.foldM]
  | binary op s t ihs iht =>
    have enough (a b : α) :
        step (b :: a :: stack) (.binary op) = alg.step (b :: a :: stack) (.binary op) :=
      same _ _ (by simp [Step.operands])
    simp [List.foldlM_append, ihs, iht, enough, Algebra.step, Term.foldM]

theorem foldlM_program (alg : Algebra m ν α) (t : Term ν) (stack : List α) :
    t.program.foldlM alg.step stack = do return (← t.foldM alg) :: stack := by
  rw [alg.foldlM_program_of_step (fun _ _ _ => rfl), map_eq_pure_bind]

theorem run_program (alg : Algebra m ν α) (t : Term ν) : alg.run t.program = t.foldM alg := by
  rw [run, foldlM_program]
  simp

end Algebra

end Fluxion
