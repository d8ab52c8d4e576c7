import Fluxion.Proofs.Derivative.Flags
import Fluxion.Proofs.Derivative.Table
import Fluxion.Proofs.Forest.Shape

/-!
# Which derivatives are built

The recipe of a node consults the derivatives of some of its operands. The two rows of flags say
of every node below the top whether it depends on the variable and whether it is differentiated
because the recipes ask for it, from the top down.
-/

namespace Fluxion

namespace Forest

/-- The operands of the node whose derivatives its recipe takes, given which nodes depend on the
variable. -/
def consults (f : Forest) (depends : Nat → Bool) (j : Nat) : List Nat :=
  match f.cells[j]? with
  | some (.unary op a) => op.recipe.slopes.map fun _ => a
  | some (.binary op a b) => (op.recipe (depends a) (depends b)).slopes.map (onSides a b)
  | _ => []

/-- Whether the variable occurs below the node. -/
def dependent (f : Forest) (key : Key) (j : Nat) : Bool := f.dependsOn? j key == some true

/-- What is differentiated for the derivative of the node `i`: the node itself, and the operands
that the recipe of a differentiated node consults. -/
inductive Differentiated (f : Forest) (key : Key) (i : Nat) : Nat → Prop where
  | top : Differentiated f key i i
  | operand {j a : Nat} (above : Differentiated f key i j)
      (used : a ∈ f.consults (f.dependent key) j) : Differentiated f key i a

variable {f : Forest} {key : Key} {flags depends : Array Bool} {b : Bool} {s t : Tree}
  {i j a : Nat} {op : Binary}

theorem consults_of_leaf {dep : Nat → Bool} {c : Cell} (hc : f.cells[j]? = some c)
    (leaf : c.isLeaf = true) : f.consults dep j = [] := by
  cases c with
  | number x => simp only [consults, hc]
  | var k => simp only [consults, hc]
  | unary op a => cases leaf
  | binary op a b => cases leaf

theorem consults_unary {dep : Nat → Bool} {op : Unary} (hc : f.cells[j]? = some (.unary op a)) :
    f.consults dep j = [a] := by
  simp only [consults, hc]
  rw [op.slopes_recipe, List.map_singleton]

theorem consults_binary {dep : Nat → Bool} {c : Nat} (hc : f.cells[j]? = some (.binary op a c)) :
    f.consults dep j = (op.recipe (dep a) (dep c)).slopes.map (onSides a c) := by
  simp only [consults, hc]

/-- What is consulted fills a slot. -/
theorem mem_slots_of_consults {dep : Nat → Bool} (h : a ∈ f.consults dep j) : a ∈ f.slots j := by
  rw [consults] at h
  split at h
  · next op c hc =>
    obtain ⟨side, -, rfl⟩ := List.mem_map.mp h
    simp [slots_eq hc, Cell.slots]
  · next op c d hc =>
    obtain ⟨side, -, rfl⟩ := List.mem_map.mp h
    rw [slots_eq hc]
    cases side with
    | left => exact List.mem_cons_self
    | right => exact List.mem_cons_of_mem c List.mem_cons_self
  · cases h

/-- Nothing is consulted twice if the slots are different. -/
theorem nodup_consults {dep : Nat → Bool} (distinct : (f.slots j).Nodup) :
    (f.consults dep j).Nodup := by
  cases hc : f.cells[j]? with
  | none =>
    simp only [consults, hc]
    exact List.nodup_nil
  | some c =>
    cases c with
    | number x =>
      rw [consults_of_leaf hc rfl]
      exact List.nodup_nil
    | var k =>
      rw [consults_of_leaf hc rfl]
      exact List.nodup_nil
    | unary op a =>
      rw [consults_unary hc]
      exact List.nodup_singleton a
    | binary op a c =>
      rw [slots_eq hc, Cell.slots, List.nodup_cons, List.mem_singleton] at distinct
      rw [consults_binary hc]
      refine (op.nodup_slopes _ _).map ?_
      rintro (_ | _) (_ | _) same
      · rfl
      · exact absurd same distinct.1
      · exact absurd same.symm distinct.1
      · rfl

/-! ### What the flags say of parts -/

theorem dependent_top (fits : s.Fits f.cells) : f.dependent key s.top = s.term.dependsOn key := by
  rw [dependent, fits.dependsOn?_eq]
  cases s.term.dependsOn key <;> rfl

end Forest

namespace Tree

open Forest

variable {f : Forest} {key : Key} {flags depends : Array Bool} {b : Bool} {s t : Tree}
  {i j a : Nat} {k : Context}

theorem Marks.part (h : (k.plug s).Marks key flags) : s.Marks key flags := by
  induction k generalizing s with
  | nil => exact h
  | cons c k ih =>
    have whole := ih h
    cases c with
    | unary i op => exact whole.2
    | left i op t => exact whole.2.1
    | right i op s => exact whole.2.2

/-- The derivative of a part is used if its top is flagged. -/
theorem Demands.part (h : (k.plug s).Demands key flags b) :
    s.Demands key flags (flag flags s.top) := by
  suffices some : ∃ b, s.Demands key flags b by
    obtain ⟨b, demands⟩ := some
    rwa [demands.top]
  induction k generalizing s with
  | nil => exact ⟨b, h⟩
  | cons c k ih =>
    obtain ⟨b, whole⟩ := ih h
    cases c with
    | unary i op => exact ⟨_, whole.2⟩
    | left i op t => exact ⟨_, whole.2.1⟩
    | right i op s => exact ⟨_, whole.2.2⟩

/-- Judged by the flags, a part consults what it consults judged by its tree. -/
theorem Marks.consults_eq (fits : s.Fits f.cells) (marks : s.Marks key depends) :
    f.consults (flag depends) s.top = f.consults (f.dependent key) s.top := by
  cases s with
  | number i x => rw [consults_of_leaf fits.cell rfl, consults_of_leaf fits.cell rfl]
  | var i k => rw [consults_of_leaf fits.cell rfl, consults_of_leaf fits.cell rfl]
  | unary i op t => rw [top_unary, consults_unary fits.1, consults_unary fits.1]
  | binary i op s t =>
    rw [top_binary, consults_binary fits.1, consults_binary fits.1, marks.2.1.top,
      marks.2.2.top, dependent_top fits.2.1, dependent_top fits.2.2]

theorem mem_consults_unary {op : Unary} (fits : (unary i op t).Fits f.cells) :
    t.top ∈ f.consults (f.dependent key) i := by
  rw [consults_unary fits.1]
  exact List.mem_singleton.mpr rfl

theorem mem_consults_binary {op : Binary} (side : Side) (fits : (binary i op s t).Fits f.cells)
    (used : op.uses (s.term.dependsOn key) (t.term.dependsOn key) side = true) :
    onSides s.top t.top side ∈ f.consults (f.dependent key) i := by
  rw [consults_binary fits.1, dependent_top fits.2.1, dependent_top fits.2.2]
  exact List.mem_map.mpr ⟨side, Binary.mem_slopes_iff.mpr used, rfl⟩

/-- Whatever is flagged is differentiated, if that holds of the top. -/
theorem Demands.differentiated (fits : t.Fits f.cells) (demands : t.Demands key flags b)
    (top : b = true → f.Differentiated key i t.top) :
    ∀ j ∈ t.nodes, flag flags j = true → f.Differentiated key i j := by
  induction t generalizing b with
  | number i' x =>
    intro j hj flagged
    cases List.mem_singleton.mp hj
    exact top (demands.symm.trans flagged)
  | var i' k =>
    intro j hj flagged
    cases List.mem_singleton.mp hj
    exact top (demands.symm.trans flagged)
  | unary i' op t ih =>
    intro j hj flagged
    rw [nodes_unary, List.mem_append, List.mem_singleton] at hj
    rcases hj with hj | rfl
    · refine ih fits.2 demands.2 ?_ j hj flagged
      intro hb
      exact .operand (top hb) (mem_consults_unary fits)
    · exact top (demands.1.symm.trans flagged)
  | binary i' op s t ihs iht =>
    intro j hj flagged
    rw [nodes_binary, List.mem_append, List.mem_append, List.mem_singleton] at hj
    rcases hj with (hj | hj) | rfl
    · refine ihs fits.2.1 demands.2.1 ?_ j hj flagged
      intro used
      rw [Bool.and_eq_true] at used
      exact .operand (top used.1) (mem_consults_binary .left fits used.2)
    · refine iht fits.2.2 demands.2.2 ?_ j hj flagged
      intro used
      rw [Bool.and_eq_true] at used
      exact .operand (top used.1) (mem_consults_binary .right fits used.2)
    · exact top (demands.1.symm.trans flagged)

/-- What a flagged part consults is flagged. -/
theorem Demands.flag_operand (fits : s.Fits f.cells) (demands : s.Demands key flags true)
    (used : a ∈ f.consults (f.dependent key) s.top) : flag flags a = true := by
  cases s with
  | number i x =>
    rw [consults_of_leaf fits.cell rfl] at used
    cases used
  | var i k =>
    rw [consults_of_leaf fits.cell rfl] at used
    cases used
  | unary i op t =>
    rw [top_unary, consults_unary fits.1, List.mem_singleton] at used
    exact used ▸ demands.2.top
  | binary i op s t =>
    rw [top_binary, consults_binary fits.1, dependent_top fits.2.1, dependent_top fits.2.2] at used
    obtain ⟨side, taken, rfl⟩ := List.mem_map.mp used
    rw [Binary.mem_slopes_iff] at taken
    cases side with
    | left => exact demands.2.1.top.trans taken
    | right => exact demands.2.2.top.trans taken

theorem Demands.flag_of_differentiated (fits : t.Fits f.cells) (demands : t.Demands key flags true)
    (h : f.Differentiated key t.top j) : j ∈ t.nodes ∧ flag flags j = true := by
  induction h with
  | top => exact ⟨t.top_mem_nodes, demands.top⟩
  | @operand j a _ used ih =>
    obtain ⟨hj, flagged⟩ := ih
    obtain ⟨k, s, rfl, rfl⟩ := exists_plug hj
    have part := demands.part
    rw [flagged] at part
    constructor
    · exact mem_nodes_of_reachable fits hj (.single (mem_slots_of_consults used))
    · exact part.flag_operand (Context.fits_plug.mp fits).1 used

end Tree

end Fluxion
