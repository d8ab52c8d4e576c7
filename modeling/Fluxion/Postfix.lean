import Fluxion.Fault
import Fluxion.Term

/-!
# Postfix programs

A term written in postfix order is a program for a stack: a leaf puts a result on the
stack, an operator takes the results of its operands from it, the last operand first, and
puts its own back. What a result is and how it comes about is up to an algebra. The
program of a term does what recursion on the term does, from left to right, and stops at
the first failure.
-/

namespace Fluxion

inductive Step (ν : Type) where
  | number (value : Float)
  | var (name : ν)
  | unary (op : Unary)
  | binary (op : Binary)
deriving DecidableEq

def Step.map {ν μ : Type} (f : ν → μ) : Step ν → Step μ
  | number x => number x
  | var n => var (f n)
  | unary op => unary op
  | binary op => binary op

/-- One operation for each kind of node. -/
structure Algebra (m : Type → Type) (ν α : Type) where
  number : Float → m α
  var : ν → m α
  unary : Unary → α → m α
  binary : Binary → α → α → m α

namespace Algebra

variable {m : Type → Type} {ν α : Type} [Monad m] [MonadExceptOf Fault m]

/-- One step of a program. The top of the stack is its head. -/
@[specialize] def step (alg : Algebra m ν α) (stack : List α) : Step ν → m (List α)
  | .number x => return (← alg.number x) :: stack
  | .var n => return (← alg.var n) :: stack
  | .unary op =>
    match stack with
    | a :: rest => return (← alg.unary op a) :: rest
    | [] => throw .missingNode
  | .binary op =>
    match stack with
    | b :: a :: rest => return (← alg.binary op a b) :: rest
    | _ => throw .missingNode

/-- Runs a program on the empty stack; the result is what it leaves on top. -/
@[specialize] def run (alg : Algebra m ν α) (steps : List (Step ν)) : m α := do
  match ← steps.foldlM alg.step [] with
  | a :: _ => return a
  | [] => throw .missingNode

end Algebra

namespace Term

variable {ν α : Type} {m : Type → Type}

/-- The program of the term, followed by `rest`. -/
def postfixOnto : Term ν → List (Step ν) → List (Step ν)
  | number x, rest => .number x :: rest
  | var n, rest => .var n :: rest
  | unary op t, rest => t.postfixOnto (.unary op :: rest)
  | binary op s t, rest => s.postfixOnto (t.postfixOnto (.binary op :: rest))

def program (t : Term ν) : List (Step ν) := t.postfixOnto []

/-- Recursion on the term, operands before their operator and the left one first. -/
def foldM [Monad m] (alg : Algebra m ν α) : Term ν → m α
  | number x => alg.number x
  | var n => alg.var n
  | unary op t => do alg.unary op (← t.foldM alg)
  | binary op s t => do
    let a ← s.foldM alg
    let b ← t.foldM alg
    alg.binary op a b

theorem postfixOnto_eq (t : Term ν) (rest : List (Step ν)) :
    t.postfixOnto rest = t.program ++ rest := by
  induction t generalizing rest with
  | number x => rfl
  | var n => rfl
  | unary op t ih =>
    rw [program, postfixOnto, postfixOnto, ih, ih [_]]
    simp
  | binary op s t ihs iht =>
    rw [program, postfixOnto, postfixOnto, ihs, iht, ihs (t.postfixOnto _), iht [_]]
    simp

end Term

end Fluxion
