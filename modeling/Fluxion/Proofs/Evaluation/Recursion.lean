import Fluxion.Proofs.Forest.Unfolding
import Fluxion.Proofs.Registry
import Fluxion.Proofs.Simplification.Preservation

/-!
# Evaluation by recursion

What it means to evaluate a term by recursion, as a relation that mentions neither a stack nor
a program: the left operand first, then the right one, then the operation, and the first fault
on the way is the result. The evaluation of a node does this to the term that it unfolds to.
-/

namespace Fluxion

section

variable [Elementary] {r : Registry} {t : Term Key} {result : Except Fault Float}

inductive Evaluates (r : Registry) : Term Key → Except Fault Float → Prop where
  | number (x : Float) : Evaluates r (.number x) (.ok x)
  | unknown {key : Key} (entry : r.find? key = none) :
      Evaluates r (.var key) (.error (.unknownKey key))
  | unbound {key : Key} {symbol : Char} (entry : r.find? key = some ⟨symbol, none⟩) :
      Evaluates r (.var key) (.error (.unbound symbol))
  | bound {key : Key} {symbol : Char} {x : Float} (entry : r.find? key = some ⟨symbol, some x⟩) :
      Evaluates r (.var key) (.ok x)
  | operandFails {op : Unary} {t : Term Key} {e : Fault} (operand : Evaluates r t (.error e)) :
      Evaluates r (.unary op t) (.error e)
  | unary {op : Unary} {t : Term Key} {x : Float} (operand : Evaluates r t (.ok x)) :
      Evaluates r (.unary op t) (Operator.apply (.unary op) x none)
  | leftFails {op : Binary} {s t : Term Key} {e : Fault} (left : Evaluates r s (.error e)) :
      Evaluates r (.binary op s t) (.error e)
  | rightFails {op : Binary} {s t : Term Key} {x : Float} {e : Fault}
      (left : Evaluates r s (.ok x)) (right : Evaluates r t (.error e)) :
      Evaluates r (.binary op s t) (.error e)
  | binary {op : Binary} {s t : Term Key} {x y : Float} (left : Evaluates r s (.ok x))
      (right : Evaluates r t (.ok y)) :
      Evaluates r (.binary op s t) (Operator.apply (.binary op) x (some y))

namespace Term

theorem value_of_evaluates (h : Evaluates r t result) : t.value r = result := by
  induction h with
  | number x => rfl
  | unknown entry => simp only [value, foldM, evaluation, Registry.value, entry]
  | unbound entry => simp only [value, foldM, evaluation, Registry.value, entry]
  | bound entry => simp only [value, foldM, evaluation, Registry.value, entry]
  | operandFails _ ih | leftFails _ ih =>
    rw [value, foldM, ← value, ih]
    rfl
  | unary _ ih =>
    rw [value, foldM, ← value, ih]
    rfl
  | rightFails _ _ ihs iht | binary _ _ ihs iht =>
    rw [value, foldM, ← value, ← value, ihs, iht]
    rfl

theorem evaluates_value (t : Term Key) : Evaluates r t (t.value r) := by
  induction t with
  | number x => exact .number x
  | var key =>
    cases entry : r.find? key with
    | none =>
      rw [value_of_evaluates (.unknown entry)]
      exact .unknown entry
    | some e =>
      obtain ⟨symbol, _ | x⟩ := e
      · rw [value_of_evaluates (.unbound entry)]
        exact .unbound entry
      · rw [value_of_evaluates (.bound entry)]
        exact .bound entry
  | unary op t ih =>
    cases operand : t.value r with
    | error e =>
      rw [operand] at ih
      rw [value_of_evaluates (.operandFails ih)]
      exact .operandFails ih
    | ok x =>
      rw [operand] at ih
      rw [value_of_evaluates (.unary ih)]
      exact .unary ih
  | binary op s t ihs iht =>
    cases left : s.value r with
    | error e =>
      rw [left] at ihs
      rw [value_of_evaluates (.leftFails ihs)]
      exact .leftFails ihs
    | ok x =>
      rw [left] at ihs
      cases right : t.value r with
      | error e =>
        rw [right] at iht
        rw [value_of_evaluates (.rightFails ihs iht)]
        exact .rightFails ihs iht
      | ok y =>
        rw [right] at iht
        rw [value_of_evaluates (.binary ihs iht)]
        exact .binary ihs iht

/-- Every term has exactly one result. -/
theorem evaluates_iff : Evaluates r t result ↔ t.value r = result := by
  constructor
  · exact value_of_evaluates
  · rintro rfl
    exact t.evaluates_value

end Term

/-- No operand is missing where every operator finds its operands evaluated. -/
theorem Evaluates.ne_missingNode (h : Evaluates r t result) : result ≠ .error .missingNode := by
  rw [Term.evaluates_iff] at h
  rintro rfl
  rcases Term.value_error h with ⟨c, numeric⟩ | ⟨key, -, failed⟩
  · cases numeric
  · rcases Registry.value_eq_error failed with ⟨-, missing⟩ | ⟨e, -, missing⟩ <;> cases missing

namespace Forest

/-- The evaluation of a node without a cycle below it is recursion on its term. -/
theorem evaluate_iff_evaluates (f : Forest) (i : Nat) (acyclic : f.AcyclicFrom i) :
    ∃ t, f.term? i = some t ∧
      (∀ result, f.evaluate i = result ↔ Evaluates f.registry t result) ∧
      f.evaluate i ≠ .error .missingNode := by
  obtain ⟨l, rfl, fits⟩ := acyclic.exists_tree
  have same (result : Except Fault Float) :
      f.evaluate l.top = result ↔ Evaluates f.registry l.term result := by
    rw [fits.evaluate_eq, Term.evaluates_iff]
  refine ⟨l.term, term?_eq fits, same, ?_⟩
  exact ((same _).mp rfl).ne_missingNode

end Forest

end

namespace Forest

/-- The forest of `(x + 1 / 0) * (x + 1 / 0)`, in which the sum is one node. -/
def squaredSum : Forest where
  cells := #[.var (.ofSymbol 'x'), .number 1, .number 0, .binary .div 1 2, .binary .add 0 3,
    .binary .mul 4 4]
  parents := #[some 4, some 3, some 3, some 4, some 5, none]
  root := some 5
  registry := ⟨[⟨'x', none⟩]⟩

/-- Both operands of the sum fail, and so do both of the product. -/
theorem evaluate_squaredSum : squaredSum.AcyclicFrom 5 ∧
    squaredSum.evaluate 5 = .error (.unbound 'x') := by
  have acyclic : squaredSum.AcyclicFrom 5 := isSome_term?_iff.mp (by decide)
  obtain ⟨t, term, same, -⟩ := evaluate_iff_evaluates squaredSum 5 acyclic
  cases term
  exact ⟨acyclic, (same _).mpr (.leftFails (.leftFails (.unbound rfl)))⟩

end Forest

end Fluxion
