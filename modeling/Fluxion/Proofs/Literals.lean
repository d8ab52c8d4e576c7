import Fluxion.Journal.Sinks
import Fluxion.Proofs.Infix.Soundness
import Fluxion.Proofs.Operations
import Fluxion.Proofs.Simplification.Counting

/-!
# Numbers in runs

A forest that was read in infix notation has only ordinary numbers, and so have all forests that
come of it by operations of its own, in live cells and in others. Where numbers of other kinds
are put in, simplification does not make more of them.
-/

namespace Fluxion

section

variable {P : Float → Prop} {t : Term Char}

theorem Infix.ordinary_digitsValue {ds : List Char} (finite : (digitsValue ds).isFinite = true) :
    Ordinary (digitsValue ds) := by
  rw [digitsValue, Decimal.toFloat_natural] at finite ⊢
  exact ordinary_ofNat finite

theorem Infix.Written.ordinary {depth level : Nat} {cs : List Char}
    (h : Written depth level cs t) : ∀ x ∈ t.numbers, Ordinary x := by
  induction h with
  | digits blanks ne run finite =>
    intro x hx
    rw [Term.numbers, List.mem_singleton] at hx
    rw [hx]
    exact ordinary_digitsValue finite
  | letter blanks letter => simp [Term.numbers]
  | group blanks inner close ih => exact ih
  | call op blanks gap inner close ih => exact ih
  | operand loose tighter ih => exact ih
  | operation op precedence left blanks right ihl ihr =>
    rw [Term.numbers, List.forall_mem_append]
    exact ⟨ihr, ihl⟩

theorem Infix.Statement.ordinary {cs : List Char} (h : Statement cs t) :
    ∀ x ∈ t.numbers, Ordinary x := by
  cases h with
  | ended expression blanks => exact expression.ordinary
  | terminated expression blanks rest => exact expression.ordinary

namespace Forest

theorem numbers_upheld : Upheld P (fun _ => True) (Numbers P) :=
  keptByWrites_numbers.upheld fun _ _ => trivial

theorem ordinary_ofInfix {text : String} {f : Forest} (made : ofInfix text = .ok f) :
    f.Numbers Ordinary := by
  obtain ⟨t, read, made⟩ := Except.bind_eq_ok made
  exact numbers_upheld.ofTerm made (Infix.statement_of_read read).ordinary empty_numbers

variable [Elementary]

/-- What becomes of a forest that was read, by operations in which no other forest takes part,
and what is listed as its derivatives. -/
inductive Revised : Forest → Prop where
  | ofInfix {text : String} {f : Forest} (made : ofInfix text = .ok f) : Revised f
  | step {f : Forest} {σ : Type} (sink : Sink σ) (notes : σ) (op : Operation)
    (before : Revised f) (own : ∀ other i, op ≠ .graft other i) :
    Revised (f.afterOperation sink notes op)
  | derivatives {f g : Forest} {σ : Type} {sink : Sink σ} {symbol : Char} {n : Nat}
    {notes notes' : σ} {gs : List Forest} (before : Revised f)
    (made : f.derivatives sink symbol n notes = .ok gs notes') (mem : g ∈ gs) : Revised g

theorem Revised.numbers {f : Forest} (revised : f.Revised) : f.Numbers Ordinary := by
  have compact : ∀ f : Forest, f.Numbers Ordinary → f.compact.Numbers Ordinary :=
    fun _ h => h.compact
  induction revised with
  | ofInfix made => exact ordinary_ofInfix made
  | step sink notes op _ own ih =>
    exact numbers_upheld.afterOperation ordinary_stable sink (fun _ => compact)
      (fun other i graft => absurd graft (own other i)) ih notes
  | derivatives _ made mem ih =>
    exact numbers_upheld.derivatives ordinary_stable _ compact ih made _ mem

/-- No number that is not ordinary comes into a forest that was read, and none is multiplied in
any other. -/
theorem no_exceptional_numbers :
    (∀ f : Forest, f.Revised → ∀ (i : Nat) (x : Float), f.cells[i]? = some (.number x) →
      x.isFinite = true ∧ isSubnormal x = false) ∧
    ∀ {σ : Type} (sink : Sink σ) (notes : σ) (f : Forest), f.TreeShaped →
      let g := (Watch.outcome (Watch.simplify sink ⟨f, notes⟩)).2
      g.liveNumbers.countP Float.isNaN ≤ f.liveNumbers.countP Float.isNaN ∧
        g.liveNumbers.countP (!·.isFinite) ≤ f.liveNumbers.countP (!·.isFinite) := by
  constructor
  · intro f revised
    exact revised.numbers
  · intro σ sink notes f shaped
    constructor
    · exact shaped.countP_simplify isNaN_inherited sink notes
    · exact shaped.countP_simplify not_isFinite_inherited sink notes

end Forest

end

namespace Forest

/-- The forest of `NaN + 1`. -/
def unknown : Forest where
  cells := #[.number (0 / 0), .number 1, .binary .add 0 1]
  parents := #[some 2, some 2, none]
  root := some 2

theorem ofTerm_unknown : ofTerm (.binary .add (.number (0 / 0)) (.number 1)) = .ok unknown := rfl

/-- The derivative of the square has new numbers, all of them ordinary. The number that is not
one stays alone. -/
theorem no_exceptional_numbers_square :
    let f : Forest := ⟨#[.var (.ofSymbol 'x'), .number 2, .binary .pow 0 1],
      #[some 2, some 2, none], some 2, #[], ⟨[⟨'x', none⟩]⟩⟩
    let g := @afterOperation _ .coarse f Sink.silent () (.differentiateRoot 'x')
    ofInfix "x^2" = .ok f ∧ g.cells[5]? = some (.number 2) ∧
      (∀ (i : Nat) (x : Float), g.cells[i]? = some (.number x) →
        x.isFinite = true ∧ isSubnormal x = false) ∧
      unknown.TreeShaped ∧ unknown.liveNumbers.countP Float.isNaN = 1 ∧
      (Watch.outcome (@Watch.simplify .coarse _ Sink.silent ⟨unknown, ()⟩)).2.liveNumbers.countP
        Float.isNaN ≤ 1 := by
  intro f g
  have made : ofInfix "x^2" = .ok f := by decide +kernel
  have new : g.cells[5]? = some (.number 2) := by decide +kernel
  have own : ∀ other i, Operation.differentiateRoot 'x' ≠ .graft other i := by
    intro other i h
    cases h
  have read : @Revised .coarse f := @Revised.ofInfix .coarse "x^2" f made
  have revised := @Revised.step .coarse f Unit Sink.silent () (.differentiateRoot 'x') read own
  obtain ⟨u, -, held⟩ := holds_of_ofTerm ofTerm_unknown
  have one : unknown.liveNumbers.countP Float.isNaN = 1 := by decide +kernel
  obtain ⟨ordinary, fewer⟩ := @no_exceptional_numbers .coarse
  obtain ⟨nan, -⟩ := fewer Sink.silent () unknown held.treeShaped
  rw [one] at nan
  exact ⟨made, new, ordinary _ revised, held.treeShaped, one, nan⟩

end Forest

end Fluxion
