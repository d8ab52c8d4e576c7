import Fluxion.Forest.Equivalence
import Fluxion.Proofs.Forest.Traversal

/-!
# Terms that agree

Two forests are compared along their slots. Where trees fit the cells, that is the comparison of
their terms, node by node, with the numbers compared as such.
-/

namespace Fluxion

/-- The same operators and variables everywhere, and equal numbers. -/
def Term.agrees : Term Key → Term Key → Bool
  | number x, number y => x == y
  | var k, var l => k == l
  | unary o t, unary p u => o = p && t.agrees u
  | binary o s t, binary p u v => o = p && s.agrees u && t.agrees v
  | _, _ => false

namespace Forest

variable {f g : Forest} {s t : Tree}

theorem matches?_eq {cs ds : Array Cell} (hs : s.Fits cs) (ht : t.Fits ds) {depth : Nat}
    (deep : s.depth ≤ depth) : matches? cs ds depth s.top t.top = s.term.agrees t.term := by
  induction s generalizing t depth with
  | number i x =>
    obtain ⟨depth, rfl⟩ := Tree.exists_succ_of_depth_le deep
    rw [matches?, hs.cell, ht.cell]
    cases t <;> rfl
  | var i key =>
    obtain ⟨depth, rfl⟩ := Tree.exists_succ_of_depth_le deep
    rw [matches?, hs.cell, ht.cell]
    cases t <;> rfl
  | unary i op s ih =>
    obtain ⟨depth, rfl⟩ := Tree.exists_succ_of_depth_le deep
    rw [matches?, hs.cell, ht.cell]
    cases t with
    | unary j op' t =>
      simp only [Tree.cell, Tree.term, Term.agrees]
      rw [ih hs.2 ht.2 (Nat.le_of_succ_le_succ deep)]
    | number j y => rfl
    | var j key => rfl
    | binary j op' t₁ t₂ => rfl
  | binary i op s₁ s₂ ih₁ ih₂ =>
    obtain ⟨depth, rfl⟩ := Tree.exists_succ_of_depth_le deep
    rw [matches?, hs.cell, ht.cell]
    cases t with
    | binary j op' t₁ t₂ =>
      have deeper := Nat.le_of_succ_le_succ deep
      simp only [Tree.cell, Tree.term, Term.agrees]
      rw [ih₁ hs.2.1 ht.2.1 (Nat.le_trans (Nat.le_max_left _ _) deeper),
        ih₂ hs.2.2 ht.2.2 (Nat.le_trans (Nat.le_max_right _ _) deeper)]
    | number j y => rfl
    | var j key => rfl
    | unary j op' t => rfl

theorem equivalent_eq (hs : s.Fits f.cells) (ht : t.Fits g.cells) (rootLeft : f.root = some s.top)
    (rootRight : g.root = some t.top) : f.equivalent g = s.term.agrees t.term := by
  rw [equivalent, rootLeft, rootRight]
  exact matches?_eq hs ht hs.depth_le

end Forest

end Fluxion
