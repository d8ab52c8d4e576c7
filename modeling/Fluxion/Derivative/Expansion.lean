import Fluxion.Derivative.Sequence
import Fluxion.Evaluation

/-!
# Taylor expansion

The Taylor polynomial with `n` terms about a centre `c` is the sum over `k < n` of
`v_k / k! * (x - c) ^ k`, where `v_k` is the value at `c` of the `k`-th expression of the
sequence of derivatives.
-/

namespace Fluxion

namespace Watch

variable [Elementary] {σ : Type}

/-- The value of the live expression with the variable at `center`. -/
def valueAt (sink : Sink σ) (symbol : Char) (center : Float) : Watch σ Float := do
  act (.assign symbol center)
  let root ← act .rootIndex
  match ← look (·.evaluate root) with
  | .ok v => return v
  | .error fault =>
    report sink (.evaluationFailed root fault)
    throw fault

/-- The values of the next `n` derivatives. -/
def furtherValues (sink : Sink σ) (symbol : Char) (center : Float) :
    Nat → Watch σ (List Float)
  | 0 => return []
  | n + 1 => do
    advance sink symbol
    let v ← valueAt sink symbol center
    return v :: (← furtherValues sink symbol center n)

/-- The values of the expression and its derivatives, `n` in all. -/
def values (sink : Sink σ) (symbol : Char) (center : Float) : Nat → Watch σ (List Float)
  | 0 => return []
  | n + 1 => do
    let v ← valueAt sink symbol center
    return v :: (← furtherValues sink symbol center n)

end Watch

namespace Expansion

def factorial : Nat → Float
  | 0 => 1
  | k + 1 => factorial k * Float.ofNat (k + 1)

def term (symbol : Char) (center : Float) (k : Nat) (v : Float) : Term Char :=
  .binary .mul (.binary .div (.number v) (.number (factorial k)))
    (.binary .pow (.binary .sub (.var symbol) (.number center)) (.number (Float.ofNat k)))

/-- The terms for `vs`, the first of order `k`, added to `sum` from left to right. -/
def addTerms (symbol : Char) (center : Float) : Nat → Term Char → List Float → Term Char
  | _, sum, [] => sum
  | k, sum, v :: vs =>
    addTerms symbol center (k + 1) (.binary .add sum (term symbol center k v)) vs

def polynomial (symbol : Char) (center : Float) : List Float → Term Char
  | [] => .number 0
  | v :: vs => addTerms symbol center 1 (term symbol center 0 v) vs

end Expansion

/-- The simplified Taylor polynomial as a forest of its own; `f` is not changed. -/
def Forest.expand [Elementary] {σ : Type} (sink : Sink σ) (f : Forest) (symbol : Char)
    (center : Float) (n : Nat) : EStateM Fault σ Forest := do
  let sampling : Watch σ (List Float) := do
    discard (Watch.act (.definedKey symbol))
    discard (Watch.simplify sink)
    Watch.values sink symbol center n
  let (vs, _) ← sampling.aside f
  let assembly : Watch σ Unit := do
    discard (Watch.act (.register symbol))
    Watch.act do Edit.setRoot (← Edit.plant (Expansion.polynomial symbol center vs))
    discard (Watch.simplify sink)
    Watch.act .compact
    Watch.report sink (.expanded 0)
  return (← assembly.aside .empty).2

end Fluxion
