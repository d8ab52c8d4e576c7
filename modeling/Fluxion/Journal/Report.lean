import Fluxion.Forest.Basic

/-!
# Reports

Differentiation, simplification and expansion report their steps while the forest is in
the middle of the change. A report names nodes of the forest as it is at that moment; a
node that was replaced is retired and still readable.
-/

namespace Fluxion

inductive Report where
  /-- The derivative of the node `before` is built. -/
  | stepDerived (node before : Nat)
  /-- The derivative has taken the place of the expression at `before`. -/
  | derived (node before : Nat)
  | given (root : Nat)
  | derivative (root : Nat)
  | simplified (root : Nat)
  | foldingSkipped (node : Nat) (fault : Fault)
  | evaluationFailed (root : Nat) (fault : Fault)
  | expanded (root : Nat)
deriving DecidableEq

namespace Report

def message : Report → String
  | stepDerived .. => "Differentiating a step"
  | derived .. => "Taking the derivative we get"
  | given _ => "The original expression is"
  | derivative _ => "The derivative of the expression is"
  | simplified _ => "After simplification"
  | foldingSkipped .. => "Constant folding skipped"
  | evaluationFailed .. => "Cannot evaluate the derivative"
  | expanded _ => "The taylor expansion is"

/-- The node that the step is about or has produced. -/
def node : Report → Nat
  | stepDerived node _ | derived node _ => node
  | given root | derivative root | simplified root | expanded root => root
  | foldingSkipped node _ => node
  | evaluationFailed root _ => root

/-- The node that the step has replaced. -/
def before? : Report → Option Nat
  | stepDerived _ before | derived _ before => some before
  | _ => none

def fault? : Report → Option Fault
  | foldingSkipped _ fault | evaluationFailed _ fault => some fault
  | _ => none

end Report

/-- Takes notes of type `σ` on the reports and on the forest at their moment. -/
abbrev Sink (σ : Type) := Forest → Report → σ → σ

/-- A forest under change, with the notes taken so far. -/
structure Watched (σ : Type) where
  forest : Forest
  notes : σ

/-- A change of a forest that reports its steps. -/
abbrev Watch (σ : Type) := EStateM Fault (Watched σ)

namespace Watch

variable {σ α : Type}

/-- A change without reports. -/
def act (x : Edit α) : Watch σ α := fun w =>
  match w with
  | ⟨f, notes⟩ =>
    match x f with
    | .ok a f => .ok a ⟨f, notes⟩
    | .error fault f => .error fault ⟨f, notes⟩

def look (view : Forest → α) : Watch σ α := act (.look view)

def report (sink : Sink σ) (r : Report) : Watch σ Unit := fun w =>
  match w with
  | ⟨f, notes⟩ =>
    let notes := sink f r notes
    .ok () ⟨f, notes⟩

/-- Works on the forest `f` aside; gives it back with the result. -/
def aside (x : Watch σ α) (f : Forest) : EStateM Fault σ (α × Forest) := fun notes =>
  match x ⟨f, notes⟩ with
  | .ok a ⟨f, notes⟩ => .ok (a, f) notes
  | .error fault ⟨_, notes⟩ => .error fault notes

end Watch

end Fluxion
