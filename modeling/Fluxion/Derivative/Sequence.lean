import Fluxion.Derivative.Differentiation
import Fluxion.Forest.Compact
import Fluxion.Simplification

/-!
# Sequences of derivatives

The derivatives of an expression in increasing order, each made from the one before by
differentiating, simplifying and compacting. The first one is made from the simplified
expression.
-/

namespace Fluxion

namespace Watch

variable [Elementary] {σ : Type}

/-- Goes on to the next derivative. -/
def advance (sink : Sink σ) (symbol : Char) : Watch σ Unit := do
  differentiateRoot sink symbol
  discard (simplify sink)
  act .compact

def advanceTimes (sink : Sink σ) (symbol : Char) : Nat → Watch σ Unit
  | 0 => return
  | n + 1 => do
    advance sink symbol
    report sink (.derivative (← act .rootIndex))
    advanceTimes sink symbol n

/-- Puts the `n`-th derivative in the place of the live expression. -/
def differentiateTimes (sink : Sink σ) (symbol : Char) (n : Nat) : Watch σ Unit := do
  discard (act (.definedKey symbol))
  report sink (.given (← act .rootIndex))
  discard (simplify sink)
  advanceTimes sink symbol n

/-- The forests of the next `n` derivatives. -/
def collect (sink : Sink σ) (symbol : Char) : Nat → Watch σ (List Forest)
  | 0 => return []
  | n + 1 => do
    advance sink symbol
    let f ← look id
    return f :: (← collect sink symbol n)

end Watch

/-- The forests of the first `n` derivatives; `f` itself is not changed. -/
def Forest.derivatives [Elementary] {σ : Type} (sink : Sink σ) (f : Forest) (symbol : Char)
    (n : Nat) : EStateM Fault σ (List Forest) := do
  let work : Watch σ (List Forest) := do
    discard (Watch.act (.definedKey symbol))
    discard (Watch.simplify sink)
    Watch.collect sink symbol n
  return (← work.aside f).1

end Fluxion
