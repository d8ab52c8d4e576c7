import Fluxion.Proofs.Derivative.Construction
import Fluxion.Proofs.Derivative.Demand
import Fluxion.Proofs.Forest.Compaction
import Fluxion.Proofs.Forest.Spares

/-!
# The supply of derivatives

When the derivative of a node is built, the derivatives that its recipe takes are there and may
still enter a slot. The nodes are visited operands first, so they were built before, and no other
node can have used them up, since a node fills the slot of one node only.
-/

namespace Fluxion

open Forest

/-! ### Visits in order -/

namespace Tree

variable {f : Forest} {t : Tree} {i j a : Nat} {before after : List Nat}

theorem split_last {ns : List Nat} (h : ns ++ [i] = before ++ j :: after) :
    (ns = before ∧ i = j) ∨ ∃ after', ns = before ++ j :: after' := by
  rcases List.eq_nil_or_concat after with rfl | ⟨after', k, rfl⟩
  · obtain ⟨same, last⟩ := List.append_inj' h rfl
    exact Or.inl ⟨same, List.singleton_inj.mp last⟩
  · rw [List.concat_eq_append, ← List.cons_append, ← List.append_assoc] at h
    exact Or.inr ⟨after', (List.append_inj' h rfl).1⟩

/-- A node is listed behind what fills its slots. -/
theorem Fits.mem_before (h : t.Fits f.cells) (order : t.nodes = before ++ j :: after)
    (slot : a ∈ f.slots j) : a ∈ before := by
  induction t generalizing before after with
  | number i x =>
    have hj : j ∈ (number i x).nodes := order ▸ List.mem_append_right _ List.mem_cons_self
    cases List.mem_singleton.mp hj
    rw [slots_eq h.cell] at slot
    cases slot
  | var i key =>
    have hj : j ∈ (var i key).nodes := order ▸ List.mem_append_right _ List.mem_cons_self
    cases List.mem_singleton.mp hj
    rw [slots_eq h.cell] at slot
    cases slot
  | unary i op t ih =>
    rw [nodes_unary] at order
    rcases split_last order with ⟨rfl, rfl⟩ | ⟨after', order⟩
    · rw [slots_eq h.1, Cell.slots, List.mem_singleton] at slot
      exact slot ▸ t.top_mem_nodes
    · exact ih h.2 order
  | binary i op s t ihs iht =>
    rw [nodes_binary] at order
    rcases split_last order with ⟨rfl, rfl⟩ | ⟨after', order⟩
    · simp only [slots_eq h.1, Cell.slots, List.mem_cons, List.not_mem_nil, or_false] at slot
      rcases slot with rfl | rfl
      · exact List.mem_append_left _ s.top_mem_nodes
      · exact List.mem_append_right _ t.top_mem_nodes
    · rcases List.append_eq_append_iff.mp order with ⟨rest, rfl, right⟩ | ⟨rest, left, next⟩
      · exact List.mem_append_right _ (iht h.2.2 right)
      · cases rest with
        | nil =>
          have first : t.nodes = [] ++ j :: after' := next.symm
          exact absurd (iht h.2.2 first) List.not_mem_nil
        | cons k rest =>
          rw [List.cons_append, List.cons.injEq] at next
          exact ihs h.2.1 (next.1 ▸ left)

theorem Fits.nodup_slots (h : t.Fits f.cells) (nodup : t.nodes.Nodup) (hj : j ∈ t.nodes) :
    (f.slots j).Nodup := by
  obtain ⟨k, s, rfl, rfl⟩ := exists_plug hj
  have nodup := (List.nodup_append.mp ((Context.nodes_plug k s).nodup_iff.mp nodup)).1
  rw [slots_eq (Context.fits_plug.mp h).1.cell]
  cases s with
  | number i x => exact List.nodup_nil
  | var i key => exact List.nodup_nil
  | unary i op t => exact List.nodup_singleton _
  | binary i op s t =>
    obtain ⟨-, -, apart, -⟩ := nodup_binary nodup
    have ne : s.top ≠ t.top := fun same => apart s.top s.top_mem_nodes (same ▸ t.top_mem_nodes)
    simp [Tree.cell, Cell.slots, ne]

/-- A node fills the slot of one node only. -/
theorem Fits.eq_of_mem_slots (h : t.Fits f.cells) (nodup : t.nodes.Nodup) (hi : i ∈ t.nodes)
    (hj : j ∈ t.nodes) (left : a ∈ f.slots i) (right : a ∈ f.slots j) : i = j := by
  have above {i : Nat} (hi : i ∈ t.nodes) (slot : a ∈ f.slots i) : t.above a = some i := by
    obtain ⟨c, hc, ha⟩ := exists_cell_of_mem_slots slot
    exact h.parent_eq (t.linked_above nodup) hi hc ha
  exact Option.some.inj ((above hi left).symm.trans (above hj right))

end Tree

/-! ### One node -/

theorem Unary.recipe_ne_slope (op : Unary) (side : Side) : op.recipe ≠ .slope side := by
  cases op <;> nofun

theorem Binary.recipe_ne_slope (op : Binary) (onLeft onRight : Bool) (side : Side) :
    op.recipe onLeft onRight ≠ .slope side := by
  cases op <;> cases onLeft <;> cases onRight <;> nofun

/-- A recipe uses up the derivatives that it takes. What it makes is new, unless it is one of
them. -/
theorem Forest.Spares.follow {base f : Forest} {ds : List Nat} {entry : Side → Nat}
    (operands : Side → Tree) (slope : Side → Edit Nat) (r : Recipe) (start : base.Sized)
    (fits : ∀ side, (operands side).Fits base.cells)
    (known : ∀ side ∈ r.slopes, ∀ f, slope side f = .ok (entry side) f)
    (h : base.Spares f (r.slopes.map entry ++ ds)) :
    ∃ d g, Edit.follow (fun side => (operands side).top) slope r f = .ok d g ∧
      f.size ≤ g.size ∧ ((∀ side, r ≠ .slope side) → f.size ≤ d) ∧ base.Spares g (d :: ds) := by
  induction r generalizing f ds with
  | number x =>
    obtain ⟨g, hg, made⟩ := h.number start x
    exact ⟨f.size, g, hg, made.size_le (Nat.le_refl _), fun _ => Nat.le_refl _, made⟩
  | operand side =>
    obtain ⟨d, g, hg, fresh, made⟩ := h.copy start (fits side)
    exact ⟨d, g, hg, made.size_le fresh, fun _ => fresh, made⟩
  | slope side =>
    refine ⟨entry side, f, known side (by simp [Recipe.slopes]) f, Nat.le_refl _, ?_, h⟩
    exact fun bare => absurd rfl (bare side)
  | unary op r ih =>
    obtain ⟨a, f₁, h₁, size, -, made⟩ := ih known h
    obtain ⟨g, hg, made⟩ := made.applyUnary start op
    refine ⟨f₁.size, g, ?_, made.size_le size, fun _ => size, made⟩
    rw [Edit.follow, bind_ok h₁]
    exact hg
  | binary op r s ihr ihs =>
    have knownLeft := fun side hs => known side (List.mem_append_left s.slopes hs)
    have knownRight := fun side hs => known side (List.mem_append_right r.slopes hs)
    rw [Recipe.slopes, List.map_append, List.append_assoc] at h
    obtain ⟨a, f₁, h₁, sizeLeft, -, made⟩ := ihr knownLeft h
    obtain ⟨b, f₂, h₂, sizeRight, -, made⟩ := ihs knownRight (made.perm List.perm_middle.symm)
    obtain ⟨g, hg, made⟩ := (made.perm (.swap a b ds)).applyBinary start op
    have size := sizeLeft.trans sizeRight
    refine ⟨f₂.size, g, ?_, made.size_le size, fun _ => size, made⟩
    rw [Edit.follow, bind_ok h₁, bind_ok h₂]
    exact hg
  | rightFirst op r s ihr ihs =>
    have knownLeft := fun side hs => known side (List.mem_append_left s.slopes hs)
    have knownRight := fun side hs => known side (List.mem_append_right r.slopes hs)
    have turned : base.Spares f (s.slopes.map entry ++ (r.slopes.map entry ++ ds)) := by
      refine h.perm ?_
      rw [Recipe.slopes, List.map_append, ← List.append_assoc]
      exact List.perm_append_comm.append_right ds
    obtain ⟨b, f₁, h₁, sizeRight, -, made⟩ := ihs knownRight turned
    obtain ⟨a, f₂, h₂, sizeLeft, -, made⟩ := ihr knownLeft (made.perm List.perm_middle.symm)
    obtain ⟨g, hg, made⟩ := made.applyBinary start op
    have size := sizeRight.trans sizeLeft
    refine ⟨f₂.size, g, ?_, made.size_le size, fun _ => size, made⟩
    rw [Edit.follow, bind_ok h₁, bind_ok h₂]
    exact hg

section

variable {σ : Type} {sink : Sink σ} {f g : Forest} {t : Tree} {key : Key}
  {depends demanded : Array Bool} {slopes : Array (Option Nat)} {ds before after : List Nat}
  {entry : Nat → Nat} {i j a : Nat} {notes : σ}

namespace Forest.Spares

/-- The derivative of a leaf is a new number. -/
theorem deriveNode_leaf {x : Float} (start : f.Sized)
    (made : Watch.deriveNode sink key depends slopes i ⟨g, notes⟩ =
      Watch.act (.number x) ⟨g, notes⟩) (h : f.Spares g ds) :
    ∃ d k notes', Watch.deriveNode sink key depends slopes i ⟨g, notes⟩ = .ok d ⟨k, notes'⟩ ∧
      g.size ≤ d ∧ f.Spares k (d :: ds) := by
  obtain ⟨k, hk, spares⟩ := h.number start x
  exact ⟨g.size, k, notes, made.trans (Watch.act_ok hk), Nat.le_refl _, spares⟩

/-- The derivative of a node is new. It uses up the derivatives that the node consults, and no
others. -/
theorem deriveNode (sink : Sink σ) (notes : σ) (start : f.Sized) (fits : t.Fits f.cells)
    (known : ∀ a ∈ f.consults (flag depends) t.top, slopes[a]? = some (some (entry a)))
    (h : f.Spares g ((f.consults (flag depends) t.top).map entry ++ ds)) :
    ∃ d k notes', Watch.deriveNode sink key depends slopes t.top ⟨g, notes⟩ = .ok d ⟨k, notes'⟩ ∧
      g.size ≤ d ∧ f.Spares k (d :: ds) := by
  have hc : g.cells[t.top]? = some t.cell := (h.beside.fits fits).cell
  cases t with
  | number i x =>
    rw [consults_of_leaf fits.cell rfl] at h
    refine deriveNode_leaf (x := 0) start ?_ h
    rw [Watch.deriveNode, bind_ok (Watch.look_eq _), hc]
    rfl
  | var i k =>
    rw [consults_of_leaf fits.cell rfl] at h
    refine deriveNode_leaf (x := if k = key then 1 else 0) start ?_ h
    rw [Watch.deriveNode, bind_ok (Watch.look_eq _), hc]
    rfl
  | unary i op t =>
    rw [Tree.top_unary, consults_unary fits.1, List.forall_mem_singleton] at known
    rw [Tree.top_unary, consults_unary fits.1] at h
    have held : f.Spares g (op.recipe.slopes.map (fun _ => entry t.top) ++ ds) := by
      rw [op.slopes_recipe]
      exact h
    obtain ⟨d, k, hk, -, fresh, made⟩ := follow (fun _ => t) (fun _ => pure (entry t.top))
      op.recipe start (fun _ => fits.2) (fun _ _ _ => rfl) held
    refine ⟨d, k, sink k (.stepDerived d i) notes, ?_, fresh op.recipe_ne_slope, made⟩
    rw [Tree.top_unary] at hc ⊢
    rw [Watch.deriveNode, bind_ok (Watch.look_eq _), hc]
    refine (bind_ok (Watch.act_ok (Edit.slopeOf_ok known g))).trans ?_
    exact bind_ok (Watch.act_ok hk)
  | binary i op s t =>
    rw [Tree.top_binary, consults_binary fits.1, List.forall_mem_map] at known
    rw [Tree.top_binary, consults_binary fits.1, List.map_map] at h
    have operands (side : Side) : (onSides s t side).Fits f.cells := by
      cases side with
      | left => exact fits.2.1
      | right => exact fits.2.2
    obtain ⟨d, k, hk, -, fresh, made⟩ := follow (onSides s t)
      (fun side => .slopeOf slopes (onSides s.top t.top side)) _ start operands
      (fun side hs => Edit.slopeOf_ok (known side hs)) h
    refine ⟨d, k, sink k (.stepDerived d i) notes, ?_, fresh (op.recipe_ne_slope _ _), made⟩
    simp only [map_onSides Tree.top] at hk
    rw [Tree.top_binary] at hc ⊢
    rw [Watch.deriveNode, bind_ok (Watch.look_eq _), hc]
    exact bind_ok (Watch.act_ok hk)

/-- Whatever else was to spare still is when the derivative of a node is built. -/
theorem deriveNode_keeps (sink : Sink σ) (key : Key) (notes : σ) (start : f.Sized)
    (fits : t.Fits f.cells)
    (known : ∀ a ∈ f.consults (flag depends) t.top, slopes[a]? = some (some (entry a)))
    (h : f.Spares g ((f.consults (flag depends) t.top).map entry)) :
    ∃ d k notes', Watch.deriveNode sink key depends slopes t.top ⟨g, notes⟩ = .ok d ⟨k, notes'⟩ ∧
      g.size ≤ d ∧ ∀ ds, f.Spares g ((f.consults (flag depends) t.top).map entry ++ ds) →
        f.Spares k (d :: ds) := by
  rw [← List.append_nil (List.map _ _)] at h
  obtain ⟨d, k, notes', hk, fresh, -⟩ := h.deriveNode sink notes start fits known
  refine ⟨d, k, notes', hk, fresh, ?_⟩
  intro ds h
  obtain ⟨d', k', notes'', hk', -, made⟩ := h.deriveNode sink notes start fits known
  cases hk.symm.trans hk'
  exact made

end Forest.Spares

/-! ### The loop -/

/-- The derivatives of the flagged ones among the nodes `before` are entered in `slopes`, each of
them new. If no flagged node has consulted it yet, a derivative has no parent. -/
structure Forest.Underway (f : Forest) (depends demanded : Array Bool) (before : List Nat)
    (slopes : Array (Option Nat)) (g : Forest) : Prop where
  spares : f.Spares g []
  size : slopes.size = f.size
  entered : ∀ j ∈ before, flag demanded j = true → ∃ d : Nat, slopes[j]? = some (some d)
  range : ∀ j d : Nat, slopes[j]? = some (some d) → f.size ≤ d ∧ d < g.size
  distinct : ∀ i j d : Nat, slopes[i]? = some (some d) → slopes[j]? = some (some d) → i = j
  waiting : ∀ a d : Nat, slopes[a]? = some (some d) →
    (∀ j ∈ before, flag demanded j = true → a ∉ f.consults (flag depends) j) → g.parent d = none

namespace Forest.Underway

/-- Nothing has been built yet. -/
theorem start (sized : f.Sized) :
    f.Underway depends demanded [] (Array.replicate f.size none) f := by
  have none {j d : Nat} : (Array.replicate f.size (none : Option Nat))[j]? ≠ some (some d) := by
    rw [Array.getElem?_replicate]
    split <;> nofun
  exact ⟨.nil sized, Array.size_replicate, nofun, fun _ _ h => absurd h none,
    fun _ _ _ h => absurd h none, fun _ _ h => absurd h none⟩

/-- A derivative that no flagged node has consulted may enter a slot. -/
theorem free (h : f.Underway depends demanded before slopes g) (sized : f.Sized) {d : Nat}
    (entry : slopes[a]? = some (some d))
    (unused : ∀ j ∈ before, flag demanded j = true → a ∉ f.consults (flag depends) j) :
    g.unfree? d = none := by
  obtain ⟨new, lt⟩ := h.range a d entry
  refine unfree?_eq_none_iff.mpr ⟨lt, h.waiting a d entry unused, ?_⟩
  rw [h.spares.beside.root]
  intro root
  exact absurd (sized.root_lt d root) (Nat.not_lt.mpr new)

/-- Derivatives that have not been consulted are to spare. -/
theorem spares_map (h : f.Underway depends demanded before slopes g) (sized : f.Sized)
    {as : List Nat} (nodup : as.Nodup)
    (known : ∀ a ∈ as, slopes[a]? = some (some (entry a)))
    (unused : ∀ a ∈ as, ∀ j ∈ before, flag demanded j = true → a ∉ f.consults (flag depends) j) :
    f.Spares g (as.map entry) where
  sized := h.spares.sized
  beside := h.spares.beside
  nodup := by
    refine nodup.map_on fun a ha b hb same => ?_
    exact h.distinct a b (entry a) (known a ha) (same ▸ known b hb)
  new := List.forall_mem_map.mpr fun a ha => (h.range a _ (known a ha)).1
  free := List.forall_mem_map.mpr fun a ha => h.free sized (known a ha) (unused a ha)

/-- So is one that is not consulted, beside those that are. -/
theorem spares_append (h : f.Underway depends demanded before slopes g) (sized : f.Sized)
    {as : List Nat} (nodup : as.Nodup) (off : a ∉ as)
    (known : ∀ b ∈ as ++ [a], slopes[b]? = some (some (entry b)))
    (unused : ∀ b ∈ as ++ [a], ∀ j ∈ before, flag demanded j = true →
      b ∉ f.consults (flag depends) j) :
    f.Spares g (as.map entry ++ [entry a]) := by
  have distinct : (as ++ [a]).Nodup := by
    rw [List.nodup_append]
    refine ⟨nodup, List.nodup_singleton a, ?_⟩
    intro b hb c hc same
    rw [List.mem_singleton.mp hc] at same
    exact off (same ▸ hb)
  have both := h.spares_map sized distinct known unused
  rwa [List.map_append] at both

/-- An entry is the new one, or an old one and different from it. -/
theorem entry_cases (h : f.Underway depends demanded before slopes g) (lt : i < f.size) {d d' : Nat}
    (fresh : g.size ≤ d) (ha : (slopes.setIfInBounds i (some d))[a]? = some (some d')) :
    (a = i ∧ d' = d) ∨ (slopes[a]? = some (some d') ∧ d' < d) := by
  by_cases same : a = i
  · rw [same, Array.getElem?_setIfInBounds_self_of_lt (h.size ▸ lt)] at ha
    cases ha
    exact Or.inl ⟨same, rfl⟩
  · rw [Array.getElem?_setIfInBounds_ne (Ne.symm same)] at ha
    exact Or.inr ⟨ha, (h.range a d' ha).2.trans_le fresh⟩

/-- A node that is not flagged is passed over. -/
theorem skip (h : f.Underway depends demanded before slopes g) (off : flag demanded j = false) :
    f.Underway depends demanded (before ++ [j]) slopes g where
  spares := h.spares
  size := h.size
  entered i hi flagged := by
    rcases List.mem_append.mp hi with hi | hi
    · exact h.entered i hi flagged
    · rw [List.mem_singleton.mp hi, off] at flagged
      cases flagged
  range := h.range
  distinct := h.distinct
  waiting a d ha unused := h.waiting a d ha fun i hi => unused i (List.mem_append_left _ hi)

/-- The derivative of a flagged node is built and entered. -/
theorem build (sink : Sink σ) (notes : σ) (h : f.Underway depends demanded before slopes g)
    (sized : f.Sized) (fits : t.Fits f.cells) (flagged : flag demanded t.top = true)
    (nodup : (f.consults (flag depends) t.top).Nodup)
    (supplied : ∀ a ∈ f.consults (flag depends) t.top, a ∈ before ∧ flag demanded a = true ∧
      ∀ j ∈ before, flag demanded j = true → a ∉ f.consults (flag depends) j) :
    ∃ d k notes', Watch.deriveNode sink key depends slopes t.top ⟨g, notes⟩ = .ok d ⟨k, notes'⟩ ∧
      f.Underway depends demanded (before ++ [t.top]) (slopes.setIfInBounds t.top (some d)) k := by
  let entry (a : Nat) : Nat := (slopes[a]?.join).getD 0
  have entry_eq {a d : Nat} (ha : slopes[a]? = some (some d)) : entry a = d := by
    simp only [entry, ha]
    rfl
  have known : ∀ a ∈ f.consults (flag depends) t.top, slopes[a]? = some (some (entry a)) := by
    intro a ha
    obtain ⟨visited, used, -⟩ := supplied a ha
    obtain ⟨d, hd⟩ := h.entered a visited used
    rw [entry_eq hd, hd]
  have spares := h.spares_map sized nodup known fun a ha => (supplied a ha).2.2
  obtain ⟨d, k, notes', hk, fresh, keeps⟩ :=
    spares.deriveNode_keeps sink key notes sized fits known
  have made : f.Spares k [d] := keeps [] (by rwa [List.append_nil])
  refine ⟨d, k, notes', hk, made.tail, ?_, ?_, ?_, ?_, ?_⟩
  · rw [Array.size_setIfInBounds]
    exact h.size
  · intro j hj used
    by_cases same : j = t.top
    · subst same
      exact ⟨d, Array.getElem?_setIfInBounds_self_of_lt (h.size ▸ fits.top_lt)⟩
    · rw [List.mem_append, List.mem_singleton] at hj
      rw [Array.getElem?_setIfInBounds_ne (Ne.symm same)]
      exact h.entered j (hj.resolve_right same) used
  · intro a d' ha
    rcases h.entry_cases fits.top_lt fresh ha with ⟨-, rfl⟩ | ⟨old, -⟩
    · exact ⟨made.new d' List.mem_cons_self, made.lt d' List.mem_cons_self⟩
    · obtain ⟨new, lt⟩ := h.range a d' old
      exact ⟨new, lt.trans_le (made.size_le fresh)⟩
  · intro a a' d' ha ha'
    rcases h.entry_cases fits.top_lt fresh ha with ⟨rfl, rfl⟩ | ⟨old, lt⟩
    · rcases h.entry_cases fits.top_lt fresh ha' with ⟨rfl, -⟩ | ⟨-, lt⟩
      · rfl
      · exact absurd lt (Nat.lt_irrefl _)
    · rcases h.entry_cases fits.top_lt fresh ha' with ⟨-, rfl⟩ | ⟨old', -⟩
      · exact absurd lt (Nat.lt_irrefl _)
      · exact h.distinct a a' d' old old'
  · intro a d' ha unused
    rcases h.entry_cases fits.top_lt fresh ha with ⟨-, rfl⟩ | ⟨old, -⟩
    · exact (unfree?_eq_none_iff.mp (made.free d' List.mem_cons_self)).2.1
    · -- the derivative that goes on waiting is one to spare beside those that are used up
      have off := unused t.top (List.mem_append_right _ List.mem_cons_self) flagged
      have both : f.Spares g ((f.consults (flag depends) t.top).map entry ++ [entry a]) := by
        refine h.spares_append sized nodup off ?_ ?_
        · exact List.forall_mem_append.mpr ⟨known, by simpa [entry_eq old] using old⟩
        · refine List.forall_mem_append.mpr ⟨fun b hb => (supplied b hb).2.2, ?_⟩
          rw [List.forall_mem_singleton]
          exact fun j hj => unused j (List.mem_append_left _ hj)
      rw [entry_eq old] at both
      have kept := (keeps [d'] both).free d' (List.mem_cons_of_mem d List.mem_cons_self)
      exact (unfree?_eq_none_iff.mp kept).2.1

end Forest.Underway

/-- What the recipe of a flagged node consults was visited before and is flagged, and no other node
consults it. -/
theorem Tree.Demands.supplied (fits : t.Fits f.cells) (nodup : t.nodes.Nodup)
    (marks : t.Marks key depends) (demands : t.Demands key demanded true)
    (order : t.nodes = before ++ j :: after) (flagged : flag demanded j = true) :
    (f.consults (flag depends) j).Nodup ∧ ∀ a ∈ f.consults (flag depends) j,
      (a ∈ before ∧ flag demanded a = true ∧
        ∀ i ∈ before, flag demanded i = true → a ∉ f.consults (flag depends) i) ∧
      ∀ i ∈ t.nodes, a ∈ f.consults (flag depends) i → i = j := by
  have hj : j ∈ t.nodes := order ▸ List.mem_append_right _ List.mem_cons_self
  have unvisited : j ∉ before := fun visited =>
    List.disjoint_of_nodup_append (order ▸ nodup) visited List.mem_cons_self
  refine ⟨nodup_consults (fits.nodup_slots nodup hj), ?_⟩
  intro a ha
  have slot := mem_slots_of_consults ha
  have only : ∀ i ∈ t.nodes, a ∈ f.consults (flag depends) i → i = j := fun i hi hi' =>
    fits.eq_of_mem_slots nodup hi hj (mem_slots_of_consults hi') slot
  refine ⟨⟨fits.mem_before order slot, ?_, ?_⟩, only⟩
  · obtain ⟨k, s, rfl, rfl⟩ := Tree.exists_plug hj
    have part := (Context.fits_plug.mp fits).1
    have demanded := demands.part
    rw [flagged] at demanded
    rw [marks.part.consults_eq part] at ha
    exact demanded.flag_operand part ha
  · intro i hi _ hi'
    have same := only i (order ▸ List.mem_append_left _ hi) hi'
    exact unvisited (same ▸ hi)

namespace Forest

/-- One node of the loop. -/
theorem Underway.step (sink : Sink σ) (notes : σ)
    (h : f.Underway depends demanded before slopes g) (sized : f.Sized) (fits : t.Fits f.cells)
    (nodup : t.nodes.Nodup) (marks : t.Marks key depends) (demands : t.Demands key demanded true)
    (order : t.nodes = before ++ j :: after) (flagged : flag demanded j = true) : ∃ d k notes',
      Watch.deriveNode sink key depends slopes j ⟨g, notes⟩ = .ok d ⟨k, notes'⟩ ∧
      f.Underway depends demanded (before ++ [j]) (slopes.setIfInBounds j (some d)) k := by
  obtain ⟨once, supplied⟩ := demands.supplied fits nodup marks order flagged
  have hj : j ∈ t.nodes := order ▸ List.mem_append_right _ List.mem_cons_self
  obtain ⟨k, s, whole, rfl⟩ := Tree.exists_plug hj
  exact h.build sink notes sized (Context.fits_plug.mp (whole ▸ fits)).1 flagged once fun a ha =>
    (supplied a ha).1

/-- What the recipe of the next flagged node takes is entered, and may enter a slot. -/
theorem Underway.ready (h : f.Underway depends demanded before slopes g) (sized : f.Sized)
    (fits : t.Fits f.cells) (nodup : t.nodes.Nodup) (marks : t.Marks key depends)
    (demands : t.Demands key demanded true) (order : t.nodes = before ++ j :: after)
    (flagged : flag demanded j = true) :
    (f.consults (flag depends) j).Nodup ∧ ∀ a ∈ f.consults (flag depends) j,
      ∃ d : Nat, slopes[a]? = some (some d) ∧ g.unfree? d = none ∧
        (∀ a' : Nat, slopes[a']? = some (some d) → a' = a) ∧
        ∀ j' ∈ t.nodes, a ∈ f.consults (flag depends) j' → j' = j := by
  obtain ⟨once, supplied⟩ := demands.supplied fits nodup marks order flagged
  refine ⟨once, ?_⟩
  intro a ha
  obtain ⟨⟨visited, used, unused⟩, only⟩ := supplied a ha
  obtain ⟨d, entry⟩ := h.entered a visited used
  refine ⟨d, entry, h.free sized entry unused, ?_, only⟩
  exact fun a' entry' => h.distinct a' a d entry' entry

/-- The loop comes past any number of nodes. -/
theorem underway_foldlM (sink : Sink σ) (notes : σ) (sized : f.Sized)
    (fits : t.Fits f.cells) (nodup : t.nodes.Nodup) (marks : t.Marks key depends)
    (demands : t.Demands key demanded true) (order : t.nodes = before ++ after) :
    ∃ slopes g notes', before.foldlM (Watch.deriveDemanded sink key depends demanded)
        (Array.replicate f.size none) ⟨f, notes⟩ = .ok slopes ⟨g, notes'⟩ ∧
      f.Underway depends demanded before slopes g := by
  induction before using List.reverseRecOn generalizing after with
  | nil => exact ⟨_, f, notes, rfl, .start sized⟩
  | append_singleton before j ih =>
    rw [List.append_assoc, List.singleton_append] at order
    obtain ⟨slopes, g, notes₁, run, underway⟩ := ih order
    rw [List.foldlM_append, bind_ok run]
    simp only [List.foldlM_cons, List.foldlM_nil, bind_pure]
    cases flagged : flag demanded j with
    | false =>
      exact ⟨slopes, g, notes₁, Watch.deriveDemanded_skip flagged, underway.skip flagged⟩
    | true =>
      obtain ⟨d, k, notes', hk, underway⟩ :=
        underway.step sink notes₁ sized fits nodup marks demands order flagged
      exact ⟨_, k, notes', Watch.deriveDemanded_build flagged hk, underway⟩

end Forest

end

namespace Forest

variable {σ : Type} {f : Forest} {i : Nat}

theorem TreeShaped.sized (shaped : f.TreeShaped) : f.Sized where
  sizes := shaped.sizes
  root_lt r root := by
    obtain ⟨ns, walk, -⟩ := shaped.walk r root
    obtain ⟨t, rfl, fits, -⟩ := walk.exists_tree
    exact fits.top_lt

/-- In the live tree, and where else the walk comes to no node twice, a node unfolds to a tree
without sharing. -/
theorem TreeShaped.exists_tree (shaped : f.TreeShaped)
    (tree : f.Live i ∨ ∃ ns, f.Walk i ns ∧ ns.Nodup) :
    ∃ t : Tree, t.top = i ∧ t.Fits f.cells ∧ t.nodes.Nodup := by
  rcases tree with live | ⟨ns, walk, nodup⟩
  · obtain ⟨r, root, path⟩ := id live
    obtain ⟨ns, walk, nodup⟩ := shaped.walk r root
    obtain ⟨l, rfl, fits, perm⟩ := walk.exists_tree
    obtain ⟨k, s, rfl, rfl⟩ :=
      Tree.exists_plug (mem_nodes_of_reachable fits l.top_mem_nodes path)
    have nodup := (Context.nodes_plug k s).nodup_iff.mp (perm.nodup_iff.mp nodup)
    exact ⟨s, rfl, (Context.fits_plug.mp fits).1, (List.nodup_append.mp nodup).1⟩
  · obtain ⟨t, rfl, fits, perm⟩ := walk.exists_tree
    exact ⟨t, rfl, fits, perm.nodup_iff.mp nodup⟩

/-- The tables of differentiation are right. The first one says which nodes depend on the variable
and the second one which are differentiated from the top down. When the derivative of a node is
built, the derivatives that its recipe takes are entered, each may enter a slot, and none of them
is entered for another operand or consulted by another node. So the derivative is built. -/
theorem differentiation_tables (sink : Sink σ) (key : Key) (notes : σ) (shaped : f.TreeShaped)
    (tree : f.Live i ∨ ∃ ns, f.Walk i ns ∧ ns.Nodup) :
    let order := f.postorder i
    let depends := f.dependence key order
    let demanded := f.demand i depends order.reverse
    (∀ j, f.Reaches i j → f.dependsOn? j key = some (flag depends j)) ∧
    (∀ j, flag demanded j = true ↔ f.Differentiated key i j) ∧
    (∀ before j after, order = before ++ j :: after → flag demanded j = true →
      ∃ slopes w d w', before.foldlM (Watch.deriveDemanded sink key depends demanded)
          (Array.replicate f.size none) ⟨f, notes⟩ = .ok slopes w ∧
        Watch.deriveNode sink key depends slopes j w = .ok d w' ∧
        (f.consults (flag depends) j).Nodup ∧
        ∀ a ∈ f.consults (flag depends) j, ∃ d : Nat, slopes[a]? = some (some d) ∧
          w.forest.unfree? d = none ∧ (∀ a' : Nat, slopes[a']? = some (some d) → a' = a) ∧
          ∀ j', f.Differentiated key i j' → a ∈ f.consults (flag depends) j' → j' = j) ∧
    ∃ slopes d w, order.foldlM (Watch.deriveDemanded sink key depends demanded)
        (Array.replicate f.size none) ⟨f, notes⟩ = .ok slopes w ∧
      slopes[i]? = some (some d) ∧ Watch.derive sink i key ⟨f, notes⟩ = .ok d w := by
  obtain ⟨t, rfl, fits, nodup⟩ := shaped.exists_tree tree
  intro order depends demanded
  have listed : order = t.nodes := postorder_eq fits
  have marks : t.Marks key depends := by
    have all := Tree.marks_dependence fits nodup key
    rwa [← listed] at all
  have demands : t.Demands key demanded true := by
    have all := Tree.demands_demand fits nodup marks
    rwa [← listed] at all
  refine ⟨?_, ?_, ?_, ?_⟩
  · intro j path
    obtain ⟨k, s, rfl, rfl⟩ := Tree.exists_plug (mem_nodes_of_reachable fits t.top_mem_nodes path)
    rw [(Context.fits_plug.mp fits).1.dependsOn?_eq, marks.part.top]
  · intro j
    constructor
    · intro flagged
      have hj : j ∈ t.nodes := by
        apply Tree.mem_nodes_of_demand fits nodup marks
        rwa [← listed]
      exact demands.differentiated fits (fun _ => .top) j hj flagged
    · exact fun h => (demands.flag_of_differentiated fits h).2
  · intro before j after split flagged
    rw [listed] at split
    obtain ⟨slopes, g, notes₁, run, underway⟩ :=
      underway_foldlM sink notes shaped.sized fits nodup marks demands split
    obtain ⟨d, k, notes', hk, -⟩ := underway.step sink notes₁ shaped.sized fits
      nodup marks demands split flagged
    obtain ⟨once, ready⟩ := underway.ready shaped.sized fits nodup marks demands split flagged
    refine ⟨slopes, ⟨g, notes₁⟩, d, ⟨k, notes'⟩, run, hk, once, ?_⟩
    intro a ha
    obtain ⟨d, entry, free, alone, only⟩ := ready a ha
    refine ⟨d, entry, free, alone, ?_⟩
    exact fun j' h => only j' (demands.flag_of_differentiated fits h).1
  · obtain ⟨slopes, g, notes', run, underway⟩ :=
      underway_foldlM sink notes shaped.sized fits nodup marks demands (List.append_nil _).symm
    obtain ⟨d, entry⟩ := underway.entered t.top t.top_mem_nodes demands.top
    rw [← listed] at run
    refine ⟨slopes, d, ⟨g, notes'⟩, run, entry, ?_⟩
    rw [Watch.derive, bind_ok (Watch.look_eq _), bind_ok (Watch.look_eq _),
      bind_ok (Watch.look_eq _), bind_ok (Watch.look_eq _)]
    exact (bind_ok run).trans (Watch.act_ok (Edit.slopeOf_ok entry g))

/-- The forest of `x ^ 2 / 3`, with a sine beside it. -/
def thirdOfSquare : Forest where
  cells := #[.var (.ofSymbol 'x'), .number 2, .binary .pow 0 1, .number 3, .binary .div 2 3,
    .var (.ofSymbol 'x'), .unary .sin 5]
  parents := #[some 2, some 2, some 4, some 4, none, some 6, none]
  root := some 4
  registry := ⟨[⟨'x', none⟩]⟩

theorem thirdOfSquare_holds :
    thirdOfSquare.Holds ⟨thirdOfSquare.registry, 0⟩ (some (.binary 4 .div
      (.binary 2 .pow (.var 0 (.ofSymbol 'x')) (.number 1 2)) (.number 3 3))) [] := by
  refine holds_of_tree rfl rfl ?_ ?_ rfl (by decide) (by decide)
  · exact ⟨rfl, ⟨rfl, rfl, rfl⟩, rfl⟩
  · exact ⟨rfl, rfl, ⟨rfl, rfl, trivial, trivial⟩, trivial⟩

/-- Neither the exponent nor the divisor is differentiated. When the power is, the derivative of
its base is there. The sine is differentiated where it is. -/
theorem differentiation_tables_thirdOfSquare :
    let f := thirdOfSquare
    let key := Key.ofSymbol 'x'
    let depends := f.dependence key (f.postorder 4)
    let demanded := f.demand 4 depends (f.postorder 4).reverse
    (f.TreeShaped ∧ f.Live 4 ∧ f.Walk 6 [6, 5]) ∧
      (f.dependsOn? 2 key = some true ∧ f.dependsOn? 3 key = some false) ∧
      (f.Differentiated key 4 0 ∧ ¬ f.Differentiated key 4 1 ∧ ¬ f.Differentiated key 4 3) ∧
      (∃ slopes w d w', [0, 1].foldlM (Watch.deriveDemanded Sink.silent key depends demanded)
          (Array.replicate 7 none) ⟨f, ()⟩ = .ok slopes w ∧
        Watch.deriveNode Sink.silent key depends slopes 2 w = .ok d w' ∧
        ∃ d : Nat, slopes[0]? = some (some d) ∧ w.forest.unfree? d = none) ∧
      (∃ d w, Watch.derive Sink.silent 4 key ⟨f, ()⟩ = .ok d w) ∧
      ∃ d w, Watch.derive Sink.silent 6 key ⟨f, ()⟩ = .ok d w := by
  intro f key depends demanded
  have shaped : f.TreeShaped := thirdOfSquare_holds.treeShaped
  have live {j : Nat} (hj : j ∈ [0, 1, 2, 3, 4]) : f.Live j := thirdOfSquare_holds.live_iff.mpr hj
  have sine : f.Walk 6 [6, 5] := .unary (by decide) (.leaf (by decide) (by decide))
  have below {j : Nat} (hj : j ∈ [0, 1, 2, 3, 4]) : f.Reaches 4 j := by
    obtain ⟨r, root, path⟩ := live hj
    cases root
    exact path
  obtain ⟨depend, differentiated, supplied, slopes, d, w, -, -, built⟩ :=
    differentiation_tables Sink.silent key () shaped (.inl (live (j := 4) (by simp)))
  obtain ⟨-, -, -, -, d', w', -, -, built'⟩ :=
    differentiation_tables Sink.silent key () shaped (.inr ⟨[6, 5], sine, by decide⟩)
  obtain ⟨slopes', w₁, d₁, w₂, run, derived, -, ready⟩ :=
    supplied [0, 1] 2 [3, 4] (by decide) (by decide)
  obtain ⟨d₂, entry, free, -⟩ := ready 0 (by decide)
  refine ⟨⟨shaped, live (by simp), sine⟩, ⟨?_, ?_⟩, ⟨?_, ?_, ?_⟩,
    ⟨slopes', w₁, d₁, w₂, run, derived, d₂, entry, free⟩, ⟨d, w, built⟩, d', w', built'⟩
  · rw [depend 2 (below (by simp))]
    decide
  · rw [depend 3 (below (by simp))]
    decide
  · exact (differentiated 0).mp (by decide)
  · rw [← differentiated 1]
    decide
  · rw [← differentiated 3]
    decide

end Forest

end Fluxion
