import Fluxion.Proofs.Drawing.Lines
import Fluxion.Proofs.Evaluation.Recursion
import Fluxion.Proofs.Worklist

/-!
# Walks as loops

The orders of traversal are those of two loops over a stack. One walks down from a node, left
operand first. The other lists a node before its operands, the right one first, and its list is
reversed in the end. What drives a machine with a stack is the reversed list: it never lacks an
operand.
-/

namespace Fluxion

/-! ### Loops -/

/-- After a node its operands are visited from left to right, each from the node. -/
def Forest.descending (cells : Array Cell) : Nat × Option Nat → Option (Move (Nat × Option Nat))
  | (i, _) => cells[i]?.map fun c => .put (c.slots.map fun a => (a, some i))

/-- After a node its operands are listed from right to left. -/
def Forest.listing (cells : Array Cell) (i : Nat) : Option (Move Nat) :=
  cells[i]?.map fun c => .put c.slots.reverse

/-- A walker has a stack of its own, which lasts from one walk to the next. -/
structure Walker where
  stack : List (Nat × Option Nat)

namespace Walker

def clear (w : Walker) : Walker := { w with stack := [] }

def push (w : Walker) (visit : Nat × Option Nat) : Walker := { w with stack := visit :: w.stack }

/-- Ready for a walk from the node `i`. -/
def walk (w : Walker) (i : Nat) : Walker := w.clear.push (i, none)

end Walker

namespace Tree

theorem map_fst_visitsBelow (t : Tree) :
    t.top :: t.visitsBelow.map Prod.fst = t.descendants.reverse := by
  induction t with
  | number i x => rfl
  | var i key => rfl
  | unary i op t ih => simp [visitsBelow, descendants, ih]
  | binary i op s t ihs iht => simp [visitsBelow, descendants, ← ihs, ← iht]

namespace Fits

variable {cells : Array Cell} {t : Tree}

theorem descending_eq (h : t.Fits cells) (above : Option Nat) :
    Forest.descending cells (t.top, above) =
      some (.put (t.cell.slots.map fun a => (a, some t.top))) := by
  rw [Forest.descending, h.cell, Option.map_some]

theorem descends (h : t.Fits cells) (above : Option Nat) :
    Finishes (Forest.descending cells) [(t.top, above)] ((t.top, above) :: t.visitsBelow) true := by
  induction t generalizing above with
  | number i x => exact .put (h.descending_eq above) .empty
  | var i key => exact .put (h.descending_eq above) .empty
  | unary i op t ih => exact .put (h.descending_eq above) (ih h.2 (some i))
  | binary i op s t ihs iht =>
    have operands := (ihs h.2.1 (some i)).append (iht h.2.2 (some i))
    exact .put (h.descending_eq above) operands

theorem listing_eq (h : t.Fits cells) :
    Forest.listing cells t.top = some (.put t.cell.slots.reverse) := by
  rw [Forest.listing, h.cell, Option.map_some]

theorem lists (h : t.Fits cells) :
    Finishes (Forest.listing cells) [t.top] t.nodes.reverse true := by
  induction t with
  | number i x => exact .put h.listing_eq .empty
  | var i key => exact .put h.listing_eq .empty
  | unary i op t ih =>
    rw [nodes_unary, List.reverse_append]
    exact .put h.listing_eq (ih h.2)
  | binary i op s t ihs iht =>
    -- the right operand is on top, so its nodes come first
    have operands := (iht h.2.2).append (ihs h.2.1)
    rw [nodes_binary, List.reverse_append, List.reverse_append]
    exact .put h.listing_eq operands

end Fits

end Tree

namespace Forest

/-- The two walks from a node without a cycle below it, and the machine. Both loops end; one lists
the nodes of the tree that the node unfolds to with each operator behind its operands, once the
list is reversed, and the other one before them, each node with the one it was reached from,
whatever was left in the stack of the walker. With any algebra the machine ends with the result of
recursion on the term or with its first failure. Nothing depends on what it would do if an operand
were lacking, and in the end nothing else is on its stack. -/
theorem walks_and_machine {f : Forest} {i : Nat} (acyclic : f.AcyclicFrom i) :
    ∃ t : Tree, t.top = i ∧ t.Fits f.cells ∧ f.term? i = some t.term ∧
      (f.postorder i = t.nodes ∧ ∀ taken emptied,
        Finishes (listing f.cells) [i] taken emptied ↔
          taken = (f.postorder i).reverse ∧ emptied = true) ∧
      (f.visits i = (i, none) :: t.visitsBelow ∧ f.preorder i = (f.visits i).map Prod.fst ∧
        (f.preorder i).Perm (f.postorder i) ∧ ∀ (w : Walker) taken emptied,
          Finishes (descending f.cells) (w.walk i).stack taken emptied ↔
            taken = f.visits i ∧ emptied = true) ∧
      ∀ {m : Type → Type} [Monad m] [LawfulMonad m] [MonadExceptOf Fault m] {α : Type}
        (alg : Algebra m Key α),
        alg.run (f.program i) = t.term.foldM alg ∧
        ∀ step : List α → Step Key → m (List α),
          (∀ stack s, s.operands ≤ stack.length → step stack s = alg.step stack s) →
          (f.program i).foldlM step [] = (fun a => [a]) <$> t.term.foldM alg := by
  obtain ⟨t, rfl, fits⟩ := acyclic.exists_tree
  have deep : t.depth ≤ f.size := fits.depth_le
  have visits : f.visits t.top = (t.top, none) :: t.visitsBelow := by
    rw [Forest.visits, visitsOnto_eq fits deep, List.append_nil]
  refine ⟨t, rfl, fits, term?_eq fits, ⟨postorder_eq fits, ?_⟩, ⟨visits, ?_, ?_, ?_⟩, ?_⟩
  · intro taken emptied
    rw [postorder_eq fits]
    exact fits.lists.iff_of
  · rw [preorder_eq fits, visits, List.map_cons, t.map_fst_visitsBelow]
  · rw [preorder_eq fits, postorder_eq fits]
    exact t.descendants.reverse_perm.trans t.descendants_perm
  · intro w taken emptied
    rw [visits]
    exact (fits.descends none).iff_of
  · intro m _ _ _ α alg
    rw [program_eq fits]
    exact ⟨alg.run_program t.term, fun step same => alg.foldlM_program_of_step same t.term []⟩

/-- The walk is the second one of a walker that broke off the first. Each time the sum is reached
it is visited and counted with all that is below it. The evaluation stops at the variable. -/
theorem walks_and_machine_squaredSum :
    let f := squaredSum
    let nodes : Algebra (Except Fault) Key Nat :=
      ⟨fun _ => .ok 1, fun _ => .ok 1, fun _ n => .ok (n + 1), fun _ k n => .ok (k + n + 1)⟩
    f.AcyclicFrom 5 ∧ Finishes (listing f.cells) [5] [5, 4, 3, 2, 1, 0, 4, 3, 2, 1, 0] true ∧
      Finishes (descending f.cells) (Walker.walk ⟨[(0, some 4), (3, some 4)]⟩ 5).stack
        [(5, none), (4, some 5), (0, some 4), (3, some 4), (1, some 3), (2, some 3),
          (4, some 5), (0, some 4), (3, some 4), (1, some 3), (2, some 3)] true ∧
      nodes.run (f.program 5) = .ok 11 ∧
      (@evaluation .coarse f.registry).run (f.program 5) = .error (.unbound 'x') := by
  intro f nodes
  have acyclic : f.AcyclicFrom 5 := isSome_term?_iff.mp (by decide)
  obtain ⟨t, -, -, term, ⟨-, lists⟩, ⟨-, -, -, descends⟩, machine⟩ := walks_and_machine acyclic
  let sum : Term Key :=
    .binary .add (.var (.ofSymbol 'x')) (.binary .div (.number 1) (.number 0))
  have read : f.term? 5 = some (.binary .mul sum sum) := by decide
  have same : t.term = .binary .mul sum sum := Option.some.inj (term.symm.trans read)
  refine ⟨acyclic, (lists _ _).mpr ⟨by decide, rfl⟩,
    (descends _ _ _).mpr ⟨by decide, rfl⟩, ?_, ?_⟩
  · rw [(machine nodes).1, same]
    rfl
  · rw [(machine _).1, same]
    rfl

end Forest

end Fluxion
