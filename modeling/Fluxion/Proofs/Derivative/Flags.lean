import Fluxion.Derivative.Differentiation
import Fluxion.Proofs.Derivative.Rule
import Fluxion.Proofs.Forest.Traversal

/-!
# Flags of nodes

Differentiation decides from two rows of flags which derivatives it builds: on which nodes
the variable has an influence, and whose derivatives are used further up. Both rows say of
every part of a tree what the recursion on its term says.
-/

namespace Fluxion

open Forest

theorem Forest.flag_set_self {flags : Array Bool} {i : Nat} (h : i < flags.size) (b : Bool) :
    flag (flags.setIfInBounds i b) i = b := by
  simp [flag, h]

theorem Forest.flag_set_of_ne {flags : Array Bool} {i j : Nat} (h : i ≠ j) (b : Bool) :
    flag (flags.setIfInBounds i b) j = flag flags j := by
  simp [flag, h]

namespace Tree

/-- The flags say on which parts the variable has an influence. -/
def Marks (key : Key) (flags : Array Bool) : Tree → Prop
  | number i _ => flag flags i = false
  | var i k => flag flags i = (k == key)
  | unary i _ t => flag flags i = t.term.dependsOn key ∧ t.Marks key flags
  | binary i _ s t =>
    flag flags i = (s.term.dependsOn key || t.term.dependsOn key) ∧
      s.Marks key flags ∧ t.Marks key flags

/-- The flags say of which parts the derivative is used, if that of the whole is used or
not as `b` says. -/
def Demands (key : Key) (flags : Array Bool) : Bool → Tree → Prop
  | b, number i _ | b, var i _ => flag flags i = b
  | b, unary i _ t => flag flags i = b ∧ t.Demands key flags b
  | b, binary i op s t =>
    flag flags i = b ∧
      s.Demands key flags (b && op.uses (s.term.dependsOn key) (t.term.dependsOn key) .left) ∧
      t.Demands key flags (b && op.uses (s.term.dependsOn key) (t.term.dependsOn key) .right)

variable {key : Key} {flags flags' depends : Array Bool} {b : Bool} {f : Forest} {t : Tree}

theorem Marks.top (h : t.Marks key flags) : flag flags t.top = t.term.dependsOn key := by
  cases t with
  | number i x => exact h
  | var i k => exact h
  | unary i op t => exact h.1
  | binary i op s t => exact h.1

theorem Marks.congr (h : t.Marks key flags)
    (same : ∀ i ∈ t.nodes, flag flags' i = flag flags i) : t.Marks key flags' := by
  induction t with
  | number i x => exact (same i (by simp)).trans h
  | var i k => exact (same i (by simp)).trans h
  | unary i op t ih =>
    exact ⟨(same i (by simp)).trans h.1, ih h.2 fun j hj => same j (by simp [hj])⟩
  | binary i op s t ihs iht =>
    exact ⟨(same i (by simp)).trans h.1, ihs h.2.1 fun j hj => same j (by simp [hj]),
      iht h.2.2 fun j hj => same j (by simp [hj])⟩

theorem Demands.top (h : t.Demands key flags b) : flag flags t.top = b := by
  cases t with
  | number i x => exact h
  | var i k => exact h
  | unary i op t => exact h.1
  | binary i op s t => exact h.1

theorem Demands.congr (h : t.Demands key flags b)
    (same : ∀ i ∈ t.nodes, flag flags' i = flag flags i) : t.Demands key flags' b := by
  induction t generalizing b with
  | number i x => exact (same i (by simp)).trans h
  | var i k => exact (same i (by simp)).trans h
  | unary i op t ih =>
    exact ⟨(same i (by simp)).trans h.1, ih h.2 fun j hj => same j (by simp [hj])⟩
  | binary i op s t ihs iht =>
    exact ⟨(same i (by simp)).trans h.1, ihs h.2.1 fun j hj => same j (by simp [hj]),
      iht h.2.2 fun j hj => same j (by simp [hj])⟩

theorem Marks.set (h : t.Marks key flags) {i : Nat} (off : i ∉ t.nodes) (b : Bool) :
    t.Marks key (flags.setIfInBounds i b) := by
  apply h.congr
  intro j hj
  have ne : i ≠ j := by
    rintro rfl
    exact off hj
  exact flag_set_of_ne ne b

/-- What a row of flags says after the nodes of a tree were visited. -/
structure Visited (t : Tree) (before after : Array Bool) : Prop where
  size : after.size = before.size
  off : ∀ j, j ∉ t.nodes → flag after j = flag before j

namespace Visited

variable {s : Tree} {before between after : Array Bool}

theorem refl (t : Tree) (flags : Array Bool) : t.Visited flags flags :=
  ⟨rfl, fun _ _ => rfl⟩

theorem trans (h : t.Visited before between) (h' : t.Visited between after) :
    t.Visited before after := by
  constructor
  · exact h'.size.trans h.size
  · intro j hj
    rw [h'.off j hj, h.off j hj]

theorem set (h : t.Visited before after) {i : Nat} (hi : i ∈ t.nodes) (b : Bool) :
    t.Visited before (after.setIfInBounds i b) := by
  constructor
  · rw [Array.size_setIfInBounds]
    exact h.size
  · intro j hj
    have ne : i ≠ j := by
      rintro rfl
      exact hj hi
    rw [flag_set_of_ne ne]
    exact h.off j hj

/-- A visit of a part is one of the whole. -/
theorem mono (h : s.Visited before after) (part : ∀ i ∈ s.nodes, i ∈ t.nodes) :
    t.Visited before after := by
  constructor
  · exact h.size
  · intro j hj
    apply h.off
    intro hs
    exact hj (part j hs)

end Visited

theorem marks_foldl (fits : t.Fits f.cells) (nodup : t.nodes.Nodup)
    (inside : ∀ i ∈ t.nodes, i < flags.size) :
    t.Visited flags (t.nodes.foldl (f.markDepends key) flags) ∧
      t.Marks key (t.nodes.foldl (f.markDepends key) flags) := by
  induction t generalizing flags with
  | number i x =>
    have hc := fits.cell
    simp only [top_number, Tree.cell] at hc
    simp only [nodes_number, List.foldl_cons, List.foldl_nil, markDepends, hc, Marks]
    constructor
    · exact (Visited.refl _ flags).set (by simp) false
    · exact flag_set_self (inside i (by simp)) _
  | var i k =>
    have hc := fits.cell
    simp only [top_var, Tree.cell] at hc
    simp only [nodes_var, List.foldl_cons, List.foldl_nil, markDepends, hc, Marks]
    constructor
    · exact (Visited.refl _ flags).set (by simp) (k == key)
    · exact flag_set_self (inside i (by simp)) _
  | unary i op t ih =>
    have hc := fits.cell
    simp only [top_unary, Tree.cell] at hc
    obtain ⟨nodupOperand, off⟩ := nodup_unary nodup
    obtain ⟨visited, marks⟩ := ih fits.2 nodupOperand fun j hj => inside j (by simp [hj])
    rw [nodes_unary, List.foldl_append]
    simp only [List.foldl_cons, List.foldl_nil, markDepends, hc]
    refine ⟨?_, ?_, marks.set off _⟩
    · exact (visited.mono (by simp +contextual)).set (by simp) _
    · rw [flag_set_self (visited.size ▸ inside i (by simp)), marks.top]
  | binary i op s t ihs iht =>
    have hc := fits.cell
    simp only [top_binary, Tree.cell] at hc
    obtain ⟨nodupLeft, nodupRight, apart, offLeft, offRight⟩ := nodup_binary nodup
    obtain ⟨left, marksLeft⟩ := ihs fits.2.1 nodupLeft fun j hj => inside j (by simp [hj])
    obtain ⟨right, marksRight⟩ := iht fits.2.2 nodupRight
      fun j hj => left.size ▸ inside j (by simp [hj])
    have marksLeft := marksLeft.congr fun j hj => right.off j (apart j hj)
    rw [nodes_binary, List.foldl_append, List.foldl_append]
    simp only [List.foldl_cons, List.foldl_nil, markDepends, hc]
    have visited : (binary i op s t).Visited flags _ :=
      (left.mono (by simp +contextual)).trans (right.mono (by simp +contextual))
    refine ⟨visited.set (by simp) _, ?_, marksLeft.set offLeft _, marksRight.set offRight _⟩
    rw [flag_set_self (visited.size ▸ inside i (by simp)), marksLeft.top, marksRight.top]

theorem markDemand_unary (depends : Array Bool) {op : Unary} {i a : Nat}
    (hc : f.cells[i]? = some (.unary op a)) (lt : a < flags.size)
    (unflagged : flag flags a = false) :
    (f.markDemand depends flags i).size = flags.size ∧
      flag (f.markDemand depends flags i) a = flag flags i ∧
      ∀ j, j ≠ a → flag (f.markDemand depends flags i) j = flag flags j := by
  cases hb : flag flags i with
  | false => simp [markDemand, hb, unflagged]
  | true =>
    simp only [markDemand, hb, hc, if_true]
    exact ⟨by simp, flag_set_self lt _, fun j hj => flag_set_of_ne hj.symm _⟩

theorem markDemand_binary (depends : Array Bool) {op : Binary} {i a b : Nat}
    (hc : f.cells[i]? = some (.binary op a b)) (ne : a ≠ b) (ltLeft : a < flags.size)
    (ltRight : b < flags.size) (unflaggedLeft : flag flags a = false)
    (unflaggedRight : flag flags b = false) :
    (f.markDemand depends flags i).size = flags.size ∧
      flag (f.markDemand depends flags i) a =
        (flag flags i && op.uses (flag depends a) (flag depends b) .left) ∧
      flag (f.markDemand depends flags i) b =
        (flag flags i && op.uses (flag depends a) (flag depends b) .right) ∧
      ∀ j, j ≠ a → j ≠ b → flag (f.markDemand depends flags i) j = flag flags j := by
  cases hb : flag flags i with
  | false => simp [markDemand, hb, unflaggedLeft, unflaggedRight]
  | true =>
    simp only [markDemand, hb, hc, if_true, Bool.true_and]
    refine ⟨by simp, ?_, flag_set_self (by simpa using ltRight) _, ?_⟩
    · rw [flag_set_of_ne ne.symm, flag_set_self ltLeft]
    · intro j ha hb
      rw [flag_set_of_ne hb.symm, flag_set_of_ne ha.symm]

/-- Before the visits: the flag of the top is `b`, and no node below it is flagged. -/
structure Ready (t : Tree) (flags : Array Bool) (b : Bool) : Prop where
  inside : ∀ i ∈ t.nodes, i < flags.size
  top : flag flags t.top = b
  under : ∀ i ∈ t.under, flag flags i = false

theorem Ready.off (h : t.Ready flags b) {s : Tree} (visited : s.Visited flags flags')
    (apart : ∀ i ∈ t.nodes, i ∉ s.nodes) : t.Ready flags' b where
  inside i hi := visited.size ▸ h.inside i hi
  top := by
    rw [visited.off t.top (apart t.top t.top_mem_nodes)]
    exact h.top
  under i hi := by
    rw [visited.off i (apart i (mem_nodes.mpr (Or.inl hi)))]
    exact h.under i hi

/-- The visit of a node hands its flag down to its operand. -/
theorem Ready.demand_unary (depends : Array Bool) {op : Unary} {i : Nat}
    (fits : (unary i op t).Fits f.cells) (nodup : t.nodes.Nodup)
    (ready : (unary i op t).Ready flags b) :
    t.Ready (f.markDemand depends flags i) b ∧
      t.Visited flags (f.markDemand depends flags i) := by
  obtain ⟨size, atTop, others⟩ := markDemand_unary depends fits.1
    (ready.inside t.top (by simp)) (ready.under t.top (by simp))
  constructor
  · constructor
    · intro j hj
      exact size ▸ ready.inside j (by simp [hj])
    · exact atTop.trans ready.top
    · intro j hj
      have ne : j ≠ t.top := by
        rintro rfl
        exact top_notMem_under nodup hj
      rw [others j ne]
      exact ready.under j (by simp [mem_nodes, hj])
  · constructor
    · exact size
    · intro j hj
      have ne : j ≠ t.top := by
        rintro rfl
        exact hj t.top_mem_nodes
      exact others j ne

/-- The visit of a node flags those of its operands whose derivatives are used. -/
theorem Ready.demand_binary {op : Binary} {i : Nat} {s : Tree}
    (fits : (binary i op s t).Fits f.cells) (nodup : (binary i op s t).nodes.Nodup)
    (marks : (binary i op s t).Marks key depends) (ready : (binary i op s t).Ready flags b) :
    s.Ready (f.markDemand depends flags i)
        (b && op.uses (s.term.dependsOn key) (t.term.dependsOn key) .left) ∧
      t.Ready (f.markDemand depends flags i)
        (b && op.uses (s.term.dependsOn key) (t.term.dependsOn key) .right) ∧
      flag (f.markDemand depends flags i) i = b ∧
      (binary i op s t).Visited flags (f.markDemand depends flags i) := by
  obtain ⟨nodupLeft, nodupRight, apart, offLeft, offRight⟩ := nodup_binary nodup
  have ne : s.top ≠ t.top := by
    intro he
    exact apart s.top s.top_mem_nodes (he ▸ t.top_mem_nodes)
  obtain ⟨size, atLeft, atRight, others⟩ := markDemand_binary depends fits.1 ne
    (ready.inside s.top (by simp)) (ready.inside t.top (by simp))
    (ready.under s.top (by simp)) (ready.under t.top (by simp))
  have top : flag flags i = b := ready.top
  rw [marks.2.1.top, marks.2.2.top, top] at atLeft atRight
  refine ⟨⟨?_, atLeft, ?_⟩, ⟨?_, atRight, ?_⟩, ?_, ⟨size, ?_⟩⟩
  · intro j hj
    exact size ▸ ready.inside j (by simp [hj])
  · intro j hj
    have hj' : j ∈ s.nodes := mem_nodes.mpr (Or.inl hj)
    rw [others j (fun he => top_notMem_under nodupLeft (he ▸ hj))
      fun he => apart j hj' (he ▸ t.top_mem_nodes)]
    exact ready.under j (by simp [hj'])
  · intro j hj
    exact size ▸ ready.inside j (by simp [hj])
  · intro j hj
    have hj' : j ∈ t.nodes := mem_nodes.mpr (Or.inl hj)
    rw [others j (fun he => apart s.top s.top_mem_nodes (he ▸ hj'))
      fun he => top_notMem_under nodupRight (he ▸ hj)]
    exact ready.under j (by simp [hj'])
  · rw [others i (fun he => offLeft (he ▸ s.top_mem_nodes))
      fun he => offRight (he ▸ t.top_mem_nodes)]
    exact top
  · intro j hj
    rw [nodes_binary, List.mem_append, List.mem_append, not_or, not_or] at hj
    exact others j (fun he => hj.1.1 (he ▸ s.top_mem_nodes))
      fun he => hj.1.2 (he ▸ t.top_mem_nodes)

theorem demands_foldl (fits : t.Fits f.cells) (nodup : t.nodes.Nodup)
    (marks : t.Marks key depends) (ready : t.Ready flags b) :
    t.Visited flags (t.nodes.reverse.foldl (f.markDemand depends) flags) ∧
      t.Demands key (t.nodes.reverse.foldl (f.markDemand depends) flags) b := by
  induction t generalizing flags b with
  | number i x =>
    have hc := fits.cell
    simp only [top_number, Tree.cell] at hc
    have step : f.markDemand depends flags i = flags := by simp [markDemand, hc]
    simp only [nodes_number, List.reverse_singleton, List.foldl_cons, List.foldl_nil, step]
    exact ⟨.refl _ flags, ready.top⟩
  | var i k =>
    have hc := fits.cell
    simp only [top_var, Tree.cell] at hc
    have step : f.markDemand depends flags i = flags := by simp [markDemand, hc]
    simp only [nodes_var, List.reverse_singleton, List.foldl_cons, List.foldl_nil, step]
    exact ⟨.refl _ flags, ready.top⟩
  | unary i op t ih =>
    obtain ⟨nodupOperand, off⟩ := nodup_unary nodup
    obtain ⟨operand, step⟩ := ready.demand_unary depends fits nodupOperand
    obtain ⟨visited, demands⟩ := ih fits.2 nodupOperand marks.2 operand
    rw [nodes_unary, List.reverse_append, List.reverse_singleton, List.singleton_append,
      List.foldl_cons]
    refine ⟨(step.trans visited).mono (by simp +contextual), ?_, demands⟩
    rw [(step.trans visited).off i off]
    exact ready.top
  | binary i op s t ihs iht =>
    obtain ⟨nodupLeft, nodupRight, apart, offLeft, offRight⟩ := nodup_binary nodup
    obtain ⟨readyLeft, readyRight, top, step⟩ := ready.demand_binary fits nodup marks
    obtain ⟨right, demandsRight⟩ := iht fits.2.2 nodupRight marks.2.2 readyRight
    -- the right operand is visited first, and the left one is still ready then
    obtain ⟨left, demandsLeft⟩ :=
      ihs fits.2.1 nodupLeft marks.2.1 (readyLeft.off right apart)
    rw [nodes_binary, List.reverse_append, List.reverse_append, List.reverse_singleton,
      List.singleton_append, List.foldl_cons, List.foldl_append]
    have operands : (binary i op s t).Visited (f.markDemand depends flags i) _ :=
      (right.mono (by simp +contextual)).trans (left.mono (by simp +contextual))
    refine ⟨step.trans operands, ?_, demandsLeft, ?_⟩
    · rw [left.off i offLeft, right.off i offRight]
      exact top
    · apply demandsRight.congr
      intro j hj
      exact left.off j fun hs => apart j hs hj

/-- The flags that differentiation computes for a tree. -/
theorem marks_dependence (fits : t.Fits f.cells) (nodup : t.nodes.Nodup) (key : Key) :
    t.Marks key (f.dependence key t.nodes) := by
  have inside : ∀ i ∈ t.nodes, i < (Array.replicate f.size false).size := by
    intro i hi
    rw [Array.size_replicate]
    exact fits.lt i hi
  exact (marks_foldl fits nodup inside).2

/-- Only the top is flagged at first. -/
theorem ready_start (fits : t.Fits f.cells) (nodup : t.nodes.Nodup) :
    t.Ready ((Array.replicate f.size false).setIfInBounds t.top true) true := by
  have size : (Array.replicate f.size false).size = f.cells.size := Array.size_replicate
  refine ⟨?_, ?_, ?_⟩
  · intro i hi
    rw [Array.size_setIfInBounds, size]
    exact fits.lt i hi
  · exact flag_set_self (size ▸ fits.top_lt) _
  · intro i hi
    have ne : t.top ≠ i := by
      rintro rfl
      exact top_notMem_under nodup hi
    have lt : i < f.size := fits.lt i (mem_nodes.mpr (Or.inl hi))
    rw [flag_set_of_ne ne]
    simp [flag, lt]

theorem demands_demand (fits : t.Fits f.cells) (nodup : t.nodes.Nodup)
    (marks : t.Marks key depends) :
    t.Demands key (f.demand t.top depends t.nodes.reverse) true :=
  (demands_foldl fits nodup marks (ready_start fits nodup)).2

/-- No other nodes are flagged than those of the tree. -/
theorem mem_nodes_of_demand (fits : t.Fits f.cells) (nodup : t.nodes.Nodup)
    (marks : t.Marks key depends) {j : Nat}
    (flagged : flag (f.demand t.top depends t.nodes.reverse) j = true) : j ∈ t.nodes := by
  by_contra off
  have visited := (demands_foldl fits nodup marks (ready_start fits nodup)).1
  have ne : t.top ≠ j := by
    rintro rfl
    exact off t.top_mem_nodes
  rw [Forest.demand, visited.off j off, flag_set_of_ne ne, flag, Array.getElem?_replicate]
    at flagged
  split at flagged <;> cases flagged

end Tree

end Fluxion
