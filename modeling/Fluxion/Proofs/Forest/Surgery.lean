import Fluxion.Proofs.Forest.Stand
import Fluxion.Proofs.Sequencing

/-!
# Edits of standing trees

Every edit succeeds on standing trees, and the trees that stand afterwards are known: a new
leaf, two trees joined under a new operator, a part of the live tree that made way for
another tree or for one of its own operands.
-/

namespace Fluxion

open Edit

namespace Forest

variable {f g : Forest} {m : Mark} {live : Option Tree} {s t n : Tree} {k : Context}
  {ts us : List Tree}

/-! ### New cells -/

theorem allocate_eq (f : Forest) (c : Cell) : allocate c f = .ok f.size (f.push c) := rfl

theorem applyUnary_ok {a : Nat} (op : Unary) (free : f.unfree? a = none) :
    applyUnary op a f = .ok f.size ((f.push (.unary op a)).link a (some f.size)) := by
  rw [applyUnary, bind_ok (require_ok free)]
  rfl

theorem applyBinary_ok {a b : Nat} (op : Binary) (freeLeft : f.unfree? a = none)
    (freeRight : f.unfree? b = none) (ne : a ≠ b) :
    applyBinary op a b f = .ok f.size
      (((f.push (.binary op a b)).link a (some f.size)).link b (some f.size)) := by
  rw [applyBinary, bind_ok (require_ok freeLeft), bind_ok (require_ok freeRight), if_neg ne]
  rfl

theorem setRoot_ok {i : Nat} (lt : i < f.size) (detached : f.parent i = none) :
    setRoot i f = .ok () { f with root := some i } := by
  have present : f.absent? i = none := if_pos lt
  have unattached : (if (f.parent i).isSome then some (Fault.alreadyAttached i)
      else none) = none := by
    rw [detached]
    rfl
  exact (bind_ok (require_ok present)).trans (bind_ok (require_ok unattached))

/-! ### A cell in the place of another -/

/-- With the cell `new` in the place of `old`. -/
def moved (f : Forest) (old new : Nat) : Forest :=
  { f with
    cells := match f.parent old with
      | some p => f.cells.modify p (Cell.refill old new)
      | none => f.cells
    parents := (f.parents.setIfInBounds new (f.parent old)).setIfInBounds old none
    root := if f.parent old = none ∧ f.root = some old then some new else f.root
    retired := f.retired.push old }

theorem replace_ok {old new : Nat} (hold : old < f.size) (hnew : new < f.size)
    (ne : old ≠ new) (movable : f.movable old new = true)
    (above : ∀ p, f.parent old = some p → ∃ c, f.cells[p]? = some c ∧ c.isLeaf = false) :
    replace old new f = .ok () (f.moved old new) := by
  have atOld : f.absent? old = none := if_pos hold
  have atNew : f.absent? new = none := if_pos hnew
  have may : (if f.movable old new then none else some (Fault.alreadyAttached new)) = none :=
    if_pos movable
  rw [replace, bind_ok (require_ok atOld), bind_ok (require_ok atNew), if_neg ne,
    bind_ok (require_ok may)]
  cases hp : f.parent old with
  | none =>
    simp only [bind, EStateM.bind, look, hp, setParent, retire, moved, true_and]
    split <;> rfl
  | some p =>
    obtain ⟨c, hc, leaf⟩ := above p hp
    simp only [bind, EStateM.bind, look, hp, refill, require, setParent, retire, moved, hc,
      leaf]
    rfl

theorem replace_absent {old new : Nat} (h : f.size ≤ old ∨ f.size ≤ new) :
    replace old new f = .error .missingNode f := by
  have absent {i : Nat} (hi : f.size ≤ i) : f.absent? i = some .missingNode :=
    if_neg (Nat.not_lt.mpr hi)
  by_cases hold : f.size ≤ old
  · exact bind_error (require_error (absent hold))
  · have present : f.absent? old = none := if_pos (Nat.not_le.mp hold)
    rw [replace, bind_ok (require_ok present)]
    exact bind_error (require_error (absent (h.resolve_left hold)))

theorem replace_self {i : Nat} (h : i < f.size) : replace i i f = .ok () f := by
  have present : f.absent? i = none := if_pos h
  rw [replace, bind_ok (require_ok present), bind_ok (require_ok present), if_pos rfl]
  rfl

theorem replace_attached {old new : Nat} (hold : old < f.size) (hnew : new < f.size)
    (ne : old ≠ new) (unmovable : f.movable old new = false) :
    replace old new f = .error (.alreadyAttached new) f := by
  have atOld : f.absent? old = none := if_pos hold
  have atNew : f.absent? new = none := if_pos hnew
  have attached : (if f.movable old new then none else some (Fault.alreadyAttached new)) =
      some (.alreadyAttached new) := if_neg (by simp [unmovable])
  rw [replace, bind_ok (require_ok atOld), bind_ok (require_ok atNew), if_neg ne]
  exact bind_error (require_error attached)

theorem size_moved (f : Forest) (old new : Nat) : (f.moved old new).size = f.size := by
  simp only [size, moved]
  split <;> simp

theorem sizes_moved (sizes : f.parents.size = f.cells.size) (old new : Nat) :
    (f.moved old new).parents.size = (f.moved old new).cells.size := by
  have cells := size_moved f old new
  simp only [size] at cells
  rw [cells, ← sizes]
  simp [moved]

theorem cells_moved_of_ne {old new p i : Nat} (hp : f.parent old = some p) (h : i ≠ p) :
    (f.moved old new).cells[i]? = f.cells[i]? := by
  simp [moved, hp, Array.getElem?_modify, h.symm]

theorem cells_moved_self {old new p : Nat} (hp : f.parent old = some p) :
    (f.moved old new).cells[p]? = (f.cells[p]?).map (Cell.refill old new) := by
  simp [moved, hp, Array.getElem?_modify]

theorem cells_moved_of_detached {old new : Nat} (hp : f.parent old = none) :
    (f.moved old new).cells = f.cells := by
  simp [moved, hp]

theorem parent_moved_of_ne {old new i : Nat} (hn : i ≠ new) (ho : i ≠ old) :
    (f.moved old new).parent i = f.parent i := by
  simp [moved, parent, Ne.symm hn, Ne.symm ho]

theorem parent_moved_new {old new : Nat} (sizes : f.parents.size = f.cells.size)
    (hn : new < f.size) (ne : old ≠ new) :
    (f.moved old new).parent new = f.parent old := by
  have lt : new < f.parents.size := sizes ▸ hn
  simp [moved, parent, ne, lt]

theorem mem_drop_push {rs : Array Nat} {past i j : Nat}
    (h : i ∈ (rs.push j).toList.drop past) : i ∈ rs.toList.drop past ∨ i = j := by
  rw [Array.toList_push, List.drop_append, List.mem_append] at h
  rcases h with h | h
  · exact Or.inl h
  · exact Or.inr (List.mem_singleton.mp (List.mem_of_mem_drop h))

end Forest

/-- The other operand apart from the hole, a frame gets its new operand in the right slot. -/
theorem Frame.refill_cell {c : Frame} {a : Nat} (b : Nat) (h : a ∉ c.side) :
    (c.cell a).refill a b = c.cell b := by
  cases c with
  | unary i op => simp [Frame.cell, Cell.refill]
  | left i op t => simp [Frame.cell, Cell.refill]
  | right i op s =>
    have ne : s.top ≠ a := fun he => h (he ▸ s.top_mem_nodes)
    simp [Frame.cell, Cell.refill, ne]

namespace Forest

variable {f g : Forest} {m : Mark} {live : Option Tree} {s t n : Tree} {k : Context}
  {ts us : List Tree}

namespace Stands

/-- The only cell that changes is that of the innermost frame. -/
theorem cells_moved (h : f.Stands m (k.plug s :: ts)) (new : Nat) {i : Nat} (off : i ∉ k.nodes) :
    (f.moved s.top new).cells[i]? = f.cells[i]? := by
  have above := h.parent_hole
  cases k with
  | nil => rw [cells_moved_of_detached above]
  | cons c k =>
    have ne : i ≠ c.node := by
      rintro rfl
      exact off (by simp [Context.nodes])
    exact cells_moved_of_ne above ne

/-- The context fits with the new top in the hole. -/
theorem context_fits_moved (h : f.Stands m (k.plug s :: ts)) (new : Nat) :
    k.Fits (f.moved s.top new).cells new := by
  have above := h.parent_hole
  have offHole := h.top_notMem_context
  cases k with
  | nil => trivial
  | cons c k =>
    obtain ⟨hc, side, hk⟩ := (Context.fits_plug.mp (h.fits _ List.mem_cons_self)).2
    have distinct : (c.node :: (c.side ++ Context.nodes k)).Nodup :=
      (List.nodup_append.mp h.nodup_context).2.1
    obtain ⟨hnode, rest⟩ := List.nodup_cons.mp distinct
    have out : ∀ i ∈ c.side ++ Context.nodes k,
        (f.moved s.top new).cells[i]? = f.cells[i]? := by
      intro i hi
      have ne : i ≠ c.node := by
        rintro rfl
        exact hnode hi
      exact cells_moved_of_ne above ne
    refine ⟨?_, ?_, ?_⟩
    · rw [cells_moved_self above, hc, Option.map_some, Frame.refill_cell]
      intro hs
      exact offHole (by simp [Context.nodes, hs])
    · apply side.congr
      intro i hi
      exact out i (List.mem_append_left _ hi)
    · apply hk.congr
      intro i hi
      exact out i (List.mem_append_right _ hi)

theorem context_linked_moved (h : f.Stands m (k.plug s :: ts)) {new : Nat} (lt : new < f.size)
    (ne : s.top ≠ new) (off : new ∉ k.nodes) : k.Linked (f.moved s.top new).parent new := by
  have linked := (Context.linked_plug.mp (h.linked _ List.mem_cons_self)).2
  apply linked.congr
  · intro _
    exact parent_moved_new h.sizes lt ne
  · intro i hi
    have neNew : i ≠ new := by
      rintro rfl
      exact off hi
    have neOld : i ≠ s.top := by
      rintro rfl
      exact h.top_notMem_context hi
    exact parent_moved_of_ne neNew neOld

theorem context_detached_moved (h : f.Stands m (k.plug s :: ts)) {new : Nat}
    (lt : new < f.size) (ne : s.top ≠ new) (off : new ∉ k.nodes) :
    (f.moved s.top new).parent (k.top new) = none := by
  have above := h.parent_hole
  have offHole := h.top_notMem_context
  have detached := h.detached _ List.mem_cons_self
  rw [Context.top_plug] at detached
  cases k with
  | nil => exact (parent_moved_new h.sizes lt ne).trans above
  | cons c k =>
    have mem := Context.top_mem_nodes c k new
    have neNew : Context.top (c :: k) new ≠ new := by
      intro he
      exact off (he ▸ mem)
    have neOld : Context.top (c :: k) new ≠ s.top := by
      intro he
      exact offHole (he ▸ mem)
    rw [parent_moved_of_ne neNew neOld]
    exact detached

/-- The other trees stand as before. -/
theorem rest_moved (h : f.Stands m (k.plug s :: ts)) {new : Nat} (off : new ∉ nodesOf ts) :
    (f.moved s.top new).Stands m ts := by
  have mem : s.top ∈ (k.plug s).nodes := Context.mem_nodes_plug.mpr (Or.inl s.top_mem_nodes)
  have hole : s.top ∉ nodesOf ts := h.notMem_tail mem
  apply h.tail.frame
  · exact sizes_moved h.sizes s.top new
  · rfl
  · intro i hi
    have off : i ∉ k.nodes := by
      intro hk
      exact h.notMem_tail (Context.mem_nodes_plug.mpr (Or.inr hk)) hi
    exact h.cells_moved new off
  · intro i hi
    have neNew : i ≠ new := by
      rintro rfl
      exact off hi
    have neOld : i ≠ s.top := by
      rintro rfl
      exact hole hi
    exact parent_moved_of_ne neNew neOld
  · intro i hi
    rw [size_moved]
    rcases mem_drop_push hi with hi | rfl
    · exact h.tail.retired i hi
    · exact ⟨(h.fits _ List.mem_cons_self).lt s.top mem, hole⟩

/-- A tree apart from the rest takes the place of a part. -/
theorem moved (h : f.Stands m (k.plug s :: ts)) (fits : n.Fits f.cells)
    (linked : n.Linked f.parent) (nodup : n.nodes.Nodup)
    (offContext : ∀ i ∈ n.nodes, i ∉ k.nodes) (offTrees : ∀ i ∈ n.nodes, i ∉ nodesOf ts)
    (off : s.top ∉ n.nodes)
    (unretired : ∀ i ∈ f.retired.toList.drop m.past, i ∉ n.nodes) :
    (f.moved s.top n.top).Stands m (k.plug n :: ts) := by
  have ne : s.top ≠ n.top := by
    intro he
    exact off (he ▸ n.top_mem_nodes)
  have offTop : n.top ∉ k.nodes := offContext n.top n.top_mem_nodes
  have fits' : n.Fits (f.moved s.top n.top).cells := by
    apply fits.congr
    intro i hi
    exact h.cells_moved n.top (offContext i hi)
  have linked' : n.Linked (f.moved s.top n.top).parent := by
    apply linked.congr
    intro i hi
    have neNew : i ≠ n.top := by
      rintro rfl
      exact Tree.top_notMem_under nodup hi
    have neOld : i ≠ s.top := by
      rintro rfl
      exact off (Tree.mem_nodes.mpr (Or.inl hi))
    exact parent_moved_of_ne neNew neOld
  refine (h.rest_moved (offTrees n.top n.top_mem_nodes)).cons
    (Context.fits_plug.mpr ⟨fits', h.context_fits_moved n.top⟩)
    (Context.linked_plug.mpr ⟨linked', h.context_linked_moved fits.top_lt ne offTop⟩) ?_ ?_ ?_ ?_
  · rw [Context.top_plug]
    exact h.context_detached_moved fits.top_lt ne offTop
  · rw [(Context.nodes_plug k n).nodup_iff]
    exact nodup.append (List.nodup_append.mp h.nodup_context).2.1 offContext
  · intro i hi
    rcases Context.mem_nodes_plug.mp hi with hi | hi
    · exact offTrees i hi
    · exact h.notMem_tail (Context.mem_nodes_plug.mpr (Or.inr hi))
  · intro i hi hm
    rcases Context.mem_nodes_plug.mp hm with hm | hm
    · rcases mem_drop_push hi with hi | rfl
      · exact unretired i hi hm
      · exact off hm
    · rcases mem_drop_push hi with hi | rfl
      · exact (h.retired i hi).2
          (List.mem_append_left _ (Context.mem_nodes_plug.mpr (Or.inr hm)))
      · exact h.top_notMem_context hm

/-- Another standing tree takes the place of a part. -/
theorem moved_tree (h : f.Stands m (k.plug s :: n :: ts)) :
    (f.moved s.top n.top).Stands m (k.plug n :: ts) := by
  have hn := h.tail
  have swapped := h.perm (List.Perm.swap n (k.plug s) ts)
  have off : ∀ i ∈ n.nodes, i ∉ (k.plug s).nodes ∧ i ∉ nodesOf ts := by
    intro i hi
    have apart := swapped.notMem_tail hi
    rw [nodesOf_cons, List.mem_append, not_or] at apart
    exact apart
  apply (swapped.tail).moved (hn.fits n List.mem_cons_self) (hn.linked n List.mem_cons_self)
    hn.nodup_head
  · intro i hi hk
    exact (off i hi).1 (Context.mem_nodes_plug.mpr (Or.inr hk))
  · intro i hi
    exact (off i hi).2
  · intro hm
    exact (off _ hm).1 (Context.mem_nodes_plug.mpr (Or.inl s.top_mem_nodes))
  · intro i hi hm
    exact (hn.retired i hi).2 (List.mem_append_left _ hm)

/-- A part makes way for what stands in a frame below its top. -/
theorem moved_operand {c : Frame} (h : f.Stands m (k.plug (c.fill n) :: ts)) :
    (f.moved c.node n.top).Stands m (k.plug n :: ts) := by
  have inner : f.Stands m (Context.plug (c :: k) n :: ts) := h
  have fits := Context.fits_plug.mp (inner.fits _ List.mem_cons_self)
  have linked := Context.linked_plug.mp (inner.linked _ List.mem_cons_self)
  have apart := inner.nodup_context
  have off : ∀ i ∈ n.nodes, i ∉ Context.nodes (c :: k) := fun i hi =>
    List.disjoint_of_nodup_append apart hi
  have mem : ∀ i ∈ n.nodes, i ∈ (Context.plug (c :: k) n).nodes := fun i hi =>
    Context.mem_nodes_plug.mpr (Or.inl hi)
  have top : (c.fill n).top = c.node := by cases c <;> rfl
  rw [← top]
  apply h.moved fits.1 linked.1 (List.nodup_append.mp apart).1
  · intro i hi hk
    exact off i hi (by simp [Context.nodes, hk])
  · intro i hi
    exact h.notMem_tail (mem i hi)
  · intro hm
    exact off _ hm (by simp [Context.nodes, top])
  · intro i hi hm
    exact (h.retired i hi).2 (List.mem_append_left _ (mem i hm))

/-- What the cell that holds a part in its slot looks like. -/
theorem holder (h : f.Stands m (k.plug s :: ts)) (p : Nat) (hp : f.parent s.top = some p) :
    ∃ c, f.cells[p]? = some c ∧ c.isLeaf = false := by
  cases k with
  | nil => simp [h.parent_hole] at hp
  | cons c k =>
    rw [h.parent_hole, List.head?_cons, Option.map_some, Option.some.injEq] at hp
    have hc := (Context.fits_plug.mp (h.fits _ List.mem_cons_self)).2.1
    refine ⟨c.cell s.top, hp ▸ hc, ?_⟩
    cases c <;> rfl

end Stands

/-! ### What stands and what lives after an edit -/

namespace Holds

theorem bring (h : f.Holds m live (t :: ts)) : f.Stands m (t :: (live.toList ++ ts)) :=
  h.stands.perm List.perm_middle

theorem of_bring (root : f.root = live.map Tree.top)
    (h : f.Stands m (t :: (live.toList ++ ts))) : f.Holds m live (t :: ts) :=
  ⟨root, h.perm List.perm_middle.symm⟩

theorem perm (h : f.Holds m live ts) (p : ts.Perm us) : f.Holds m live us :=
  ⟨h.root, h.stands.perm (p.append_left _)⟩

theorem tail (h : f.Holds m live (t :: ts)) : f.Holds m live ts :=
  ⟨h.root, h.bring.tail⟩

theorem forget (h : f.Holds m live (us ++ ts)) : f.Holds m live ts := by
  induction us with
  | nil => exact h
  | cons u us ih => exact ih h.tail

theorem fits (h : f.Holds m live (t :: ts)) : t.Fits f.cells :=
  h.bring.fits t List.mem_cons_self

theorem fits_live (h : f.Holds m (some t) ts) : t.Fits f.cells :=
  h.stands.fits t List.mem_cons_self

theorem rootIndex {l : Tree} (h : f.Holds m (some l) ts) : Edit.rootIndex f = .ok l.top f := by
  simp only [Edit.rootIndex, h.root, Option.map_some]

theorem root_ne (h : f.Holds m live (t :: ts)) : f.root ≠ some t.top := by
  rw [h.root]
  cases live with
  | none => simp
  | some l =>
    intro he
    refine h.stands.notMem_tail l.top_mem_nodes ?_
    simp only [Option.map_some, Option.some.injEq] at he
    exact mem_nodesOf.mpr ⟨t, List.mem_cons_self, he ▸ t.top_mem_nodes⟩

theorem detached (h : f.Holds m live (t :: ts)) : f.parent t.top = none :=
  h.bring.detached t List.mem_cons_self

theorem unfree?_eq_none (h : f.Holds m live (t :: ts)) : f.unfree? t.top = none := by
  have lt : ¬ f.size ≤ t.top := Nat.not_le.mpr h.fits.top_lt
  simp [unfree?, lt, h.detached, h.root_ne]

theorem number (h : f.Holds m live ts) (x : Float) :
    ∃ g, Edit.number x f = .ok f.size g ∧ g.Holds m live (.number f.size x :: ts) :=
  ⟨_, allocate_eq f _, of_bring h.root (h.stands.push_number x)⟩

theorem var (h : f.Holds m live ts) (key : Key) :
    ∃ g, Edit.var key f = .ok f.size g ∧ g.Holds m live (.var f.size key :: ts) :=
  ⟨_, allocate_eq f _, of_bring h.root (h.stands.push_var key)⟩

theorem applyUnary (h : f.Holds m live (t :: ts)) (op : Unary) :
    ∃ g, Edit.applyUnary op t.top f = .ok f.size g ∧
      g.Holds m live (.unary f.size op t :: ts) :=
  ⟨_, applyUnary_ok op h.unfree?_eq_none, of_bring h.root (h.bring.push_unary op)⟩

theorem applyBinary (h : f.Holds m live (s :: t :: ts)) (op : Binary) :
    ∃ g, Edit.applyBinary op s.top t.top f = .ok f.size g ∧
      g.Holds m live (.binary f.size op s t :: ts) := by
  have both : f.Stands m (s :: t :: (live.toList ++ ts)) :=
    h.bring.perm (List.perm_middle.cons s)
  have ne : s.top ≠ t.top := fun he =>
    both.notMem_tail s.top_mem_nodes (List.mem_append_left _ (he ▸ t.top_mem_nodes))
  exact ⟨_, applyBinary_ok op h.unfree?_eq_none h.tail.unfree?_eq_none ne,
    of_bring h.root (both.push_binary op)⟩

/-- A standing tree becomes the live one; the one that was live stays where it is. -/
theorem setRoot (h : f.Holds m live (t :: ts)) :
    ∃ g, Edit.setRoot t.top f = .ok () g ∧ g.Holds m (some t) (live.toList ++ ts) := by
  refine ⟨{ f with root := some t.top }, setRoot_ok h.fits.top_lt h.detached, rfl, ?_⟩
  exact h.bring.frame h.stands.sizes rfl (fun _ _ => rfl) (fun _ _ => rfl) h.bring.retired

theorem root_moved (h : f.Holds m (some (k.plug s)) ts) (n : Tree) :
    (f.moved s.top n.top).root = some (k.plug n).top := by
  have root := h.root
  have above := h.stands.parent_hole
  rw [Option.map_some, Context.top_plug] at root
  rw [Context.top_plug]
  cases k with
  | nil =>
    have detached : f.parent s.top = none := above
    simp only [moved, detached, root, Context.top, and_self, if_true]
  | cons c k =>
    have attached : f.parent s.top ≠ none := by simp [above]
    simp only [moved, attached, false_and, if_false, root]
    rfl

/-- A standing tree takes the place of a part of the live one. -/
theorem replace (h : f.Holds m (some (k.plug s)) (n :: ts)) :
    Edit.replace s.top n.top f = .ok () (f.moved s.top n.top) ∧
      (f.moved s.top n.top).Holds m (some (k.plug n)) ts := by
  have fits := Context.fits_plug.mp h.fits_live
  have ne : s.top ≠ n.top := fun he =>
    h.bring.notMem_tail (he ▸ n.top_mem_nodes)
      (List.mem_append_left _ (Context.mem_nodes_plug.mpr (Or.inl s.top_mem_nodes)))
  have movable : f.movable s.top n.top = true := by
    simp [movable, h.detached, h.root_ne]
  exact ⟨replace_ok fits.1.top_lt h.fits.top_lt ne movable h.stands.holder,
    h.root_moved n, h.stands.moved_tree⟩

/-- The cell that changes is above the part that makes way, which is still to be read. -/
theorem fits_part_moved (h : f.Holds m (some (k.plug s)) ts) (new : Nat) :
    s.Fits (f.moved s.top new).cells := by
  refine (Context.fits_plug.mp h.fits_live).1.congr fun i hi => ?_
  exact h.stands.cells_moved new (List.disjoint_of_nodup_append h.stands.nodup_context hi)

/-- A part of the live tree makes way for its operand in a frame. -/
theorem replace_operand {c : Frame} (h : f.Holds m (some (k.plug (c.fill n))) ts) :
    Edit.replace c.node n.top f = .ok () (f.moved c.node n.top) ∧
      (f.moved c.node n.top).Holds m (some (k.plug n)) ts := by
  have top : (c.fill n).top = c.node := by cases c <;> rfl
  have inner : f.Stands m (Context.plug (c :: k) n :: ts) := h.stands
  have fits := Context.fits_plug.mp (inner.fits _ List.mem_cons_self)
  have above : f.parent n.top = some c.node := inner.parent_hole
  have ne : c.node ≠ n.top := by
    intro he
    refine List.disjoint_of_nodup_append inner.nodup_context (he ▸ n.top_mem_nodes) ?_
    simp [Context.nodes]
  have hole := (Context.fits_plug.mp h.fits_live).1.top_lt
  rw [top] at hole
  have movable : f.movable c.node n.top = true := by
    simp [movable, above]
  refine ⟨replace_ok hole fits.1.top_lt ne movable (top ▸ h.stands.holder), ?_,
    h.stands.moved_operand⟩
  have := h.root_moved n
  rwa [top] at this

/-- Of two live nodes, one makes way for the other only if it is above it, or the same. -/
theorem replace_live {l : Tree} {old new : Nat} (h : f.Holds m (some l) ts)
    (hold : old ∈ l.nodes) (hnew : new ∈ l.nodes) :
    (∃ l' g, Edit.replace old new f = .ok () g ∧ g.Holds m (some l') ts) ∨
    ∃ e, Edit.replace old new f = .error e f := by
  have oldLt := h.fits_live.lt old hold
  by_cases ne : old = new
  · subst ne
    exact Or.inl ⟨l, f, replace_self oldLt, h⟩
  · obtain ⟨k, n, rfl, rfl⟩ := Tree.exists_plug hnew
    have newLt := h.fits_live.lt n.top hnew
    have above := h.stands.parent_hole
    cases k with
    | nil =>
      have detached : f.parent n.top = none := above
      have root : f.root = some n.top := h.root
      refine Or.inr ⟨_, replace_attached oldLt newLt ne ?_⟩
      simp [movable, detached, root]
    | cons c k =>
      have attached : f.parent n.top = some c.node := above
      by_cases top : c.node = old
      · subst top
        obtain ⟨hg, held⟩ := h.replace_operand
        exact Or.inl ⟨_, _, hg, held⟩
      · refine Or.inr ⟨_, replace_attached oldLt newLt ne ?_⟩
        simp [movable, attached, top]

end Holds

end Forest

end Fluxion
