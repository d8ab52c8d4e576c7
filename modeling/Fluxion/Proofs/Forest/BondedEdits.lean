import Fluxion.Proofs.Forest.Bonds
import Fluxion.Proofs.Forest.Surgery

/-!
# Edits of bonded forests

No edit of a bonded forest breaks its bonds, whether it succeeds or fails and whatever its
arguments are. One edit only makes the list of spent nodes longer: a node whose own operand
takes its place is spent, since the operand no longer has it for its parent, or fills another
of its slots, while its own slots stay as they are.
-/

namespace Fluxion

theorem Cell.slots_refill (c : Cell) (old new : Nat) :
    (c.refill old new).slots = c.slots.replace old new := by
  cases c with
  | number x => rfl
  | var key => rfl
  | unary op a =>
    by_cases h : a = old
    · simp [refill, slots, h]
    · simp [refill, slots, List.replace_cons, h, beq_eq_false_iff_ne.mpr (Ne.symm h)]
  | binary op a b =>
    by_cases ha : a = old
    · simp [refill, slots, ha]
    · by_cases hb : b = old
      · simp [refill, slots, List.replace_cons, ha, hb, beq_eq_false_iff_ne.mpr (Ne.symm ha)]
      · simp [refill, slots, List.replace_cons, ha, hb, beq_eq_false_iff_ne.mpr (Ne.symm ha),
          beq_eq_false_iff_ne.mpr (Ne.symm hb)]

namespace Forest

variable {f g : Forest} {spent : List Nat} {i c p old new : Nat}

/-! ### One more cell -/

theorem slots_push_size (f : Forest) (c : Cell) : (f.push c).slots f.size = c.slots :=
  slots_eq (cells_push_size f c)

theorem slots_push_of_ne (c : Cell) (h : i ≠ f.size) : (f.push c).slots i = f.slots i := by
  by_cases lt : i < f.size
  · simp only [slots, cells_push_of_lt lt]
  · rw [slots_of_le (Nat.not_lt.mp lt), slots_of_le]
    rw [size_push]
    omega

theorem unfree?_eq_none_iff :
    f.unfree? i = none ↔ i < f.size ∧ f.parent i = none ∧ f.root ≠ some i := by
  by_cases lt : f.size ≤ i
  · simp [unfree?, lt]
  · by_cases free : f.parent i = none ∧ f.root ≠ some i
    · simp [unfree?, lt, free, Nat.not_le.mp lt]
    · simp only [unfree?, lt, if_false]
      constructor
      · intro h
        simp_all
      · intro h
        exact absurd h.2 free

/-- `g` has one more cell, with free nodes for its operands, which record it as their parent. -/
structure Grown (f g : Forest) (as : List Nat) : Prop where
  sizes : g.parents.size = g.cells.size
  size : g.size = f.size + 1
  root : g.root = f.root
  last : g.slots f.size = as
  others : ∀ i, i ≠ f.size → g.slots i = f.slots i
  below : ∀ a ∈ as, g.parent a = some f.size
  rest : ∀ c, c ∉ as → g.parent c = f.parent c
  nodup : as.Nodup
  free : ∀ a ∈ as, f.unfree? a = none

namespace Grown

variable {as : List Nat} (grown : Grown f g as)

include grown

theorem keeps_last : g.Keeps f.size := by
  intro c slot
  rw [grown.last] at slot ⊢
  exact ⟨grown.below c slot, List.count_eq_one_of_mem grown.nodup slot⟩

theorem parent_eq_iff (ne : i ≠ f.size) (c : Nat) :
    g.parent c = some i ↔ f.parent c = some i := by
  by_cases mem : c ∈ as
  · have detached := (unfree?_eq_none_iff.mp (grown.free c mem)).2.1
    rw [grown.below c mem, detached]
    simp [ne.symm]
  · rw [grown.rest c mem]

theorem keeps_iff (ne : i ≠ f.size) : g.Keeps i ↔ f.Keeps i := by
  simp only [Keeps, grown.others i ne, grown.parent_eq_iff ne]

end Grown

namespace Bonded

/-- A further cell keeps its operands, and the others keep theirs. -/
theorem grow (h : f.Bonded spent) (as : List Nat) (grown : f.Grown g as) : g.Bonded spent where
  sizes := grown.sizes
  slots_lt i c slot := by
    have size := grown.size
    by_cases new : i = f.size
    · rw [new, grown.last] at slot
      have lt := (unfree?_eq_none_iff.mp (grown.free c slot)).1
      omega
    · rw [grown.others i new] at slot
      have lt := h.slots_lt i c slot
      omega
  root_lt r root := by
    have lt := h.root_lt r (grown.root ▸ root)
    have size := grown.size
    omega
  root_detached r root := by
    rw [grown.root] at root
    rw [grown.rest, h.root_detached r root]
    intro mem
    exact (unfree?_eq_none_iff.mp (grown.free r mem)).2.2 root
  mem_slots c p above := by
    by_cases mem : c ∈ as
    · rw [grown.below c mem, Option.some.injEq] at above
      rw [← above, grown.last]
      exact mem
    · rw [grown.rest c mem] at above
      have slot := h.mem_slots c p above
      rw [grown.others p (lt_of_mem_slots slot).ne]
      exact slot
  keeps_iff i := by
    by_cases new : i = f.size
    · have unspent : i ∉ spent := by
        rw [← h.keeps_iff, new]
        intro c slot
        exact absurd (lt_of_mem_slots slot) (Nat.lt_irrefl _)
      exact ⟨fun _ => unspent, fun _ => new ▸ grown.keeps_last⟩
    · rw [grown.keeps_iff new, h.keeps_iff]

theorem reregister (h : f.Bonded spent) (r : Registry) :
    ({ f with registry := r } : Forest).Bonded spent :=
  ⟨h.sizes, h.slots_lt, h.root_lt, h.root_detached, h.mem_slots, h.keeps_iff⟩

theorem push_leaf (h : f.Bonded spent) {c : Cell} (leaf : c.slots = []) :
    (f.push c).Bonded spent :=
  h.grow []
    { sizes := by simp [push, h.sizes]
      size := size_push f c
      root := rfl
      last := by rw [slots_push_size, leaf]
      others := fun _ ne => slots_push_of_ne c ne
      below := by simp
      rest := fun i _ => parent_push f c i
      nodup := List.nodup_nil
      free := by simp }

theorem push_unary (h : f.Bonded spent) (op : Unary) {a : Nat} (free : f.unfree? a = none) :
    ((f.push (.unary op a)).link a (some f.size)).Bonded spent := by
  have lt : a < f.parents.size := h.sizes ▸ (unfree?_eq_none_iff.mp free).1
  have below : ((f.push (.unary op a)).link a (some f.size)).parent a = some f.size :=
    parent_link_self _ (by simp [push]; omega)
  exact h.grow [a]
    { sizes := by simp [push, link, h.sizes]
      size := size_push f _
      root := rfl
      last := slots_push_size f _
      others := fun _ ne => slots_push_of_ne (.unary op a) ne
      below := by simpa using below
      rest := fun c hc => by
        rw [List.mem_singleton] at hc
        rw [parent_link_of_ne _ (Ne.symm hc), parent_push]
      nodup := List.nodup_singleton a
      free := by simpa using free }

theorem push_binary (h : f.Bonded spent) (op : Binary) {a b : Nat} (ne : a ≠ b)
    (freeLeft : f.unfree? a = none) (freeRight : f.unfree? b = none) :
    (((f.push (.binary op a b)).link a (some f.size)).link b (some f.size)).Bonded spent := by
  have ltLeft : a < f.parents.size := h.sizes ▸ (unfree?_eq_none_iff.mp freeLeft).1
  have ltRight : b < f.parents.size := h.sizes ▸ (unfree?_eq_none_iff.mp freeRight).1
  have left : (((f.push (.binary op a b)).link a (some f.size)).link b
      (some f.size)).parent a = some f.size := by
    rw [parent_link_of_ne _ ne.symm]
    exact parent_link_self _ (by simp [push]; omega)
  have right : (((f.push (.binary op a b)).link a (some f.size)).link b
      (some f.size)).parent b = some f.size :=
    parent_link_self _ (by simp [push, link]; omega)
  exact h.grow [a, b]
    { sizes := by simp [push, link, h.sizes]
      size := size_push f _
      root := rfl
      last := slots_push_size f _
      others := fun _ ne => slots_push_of_ne (.binary op a b) ne
      below := by simp [left, right]
      rest := fun c hc => by
        simp only [List.mem_cons, List.not_mem_nil, or_false, not_or] at hc
        rw [parent_link_of_ne _ (Ne.symm hc.2), parent_link_of_ne _ (Ne.symm hc.1), parent_push]
      nodup := by simp [ne]
      free := by simp [freeLeft, freeRight] }

end Bonded

/-! ### A cell in the place of another -/

theorem movable_iff : f.movable old new = true ↔
    (f.parent new = none ∧ f.root ≠ some new) ∨ f.parent new = some old := by
  cases above : f.parent new with
  | none => simp [movable, above]
  | some p => simp [movable, above]

theorem parent_moved_old (f : Forest) (old new : Nat) : (f.moved old new).parent old = none := by
  by_cases lt : old < f.parents.size
  · simp [parent, moved, lt]
  · simp [parent, moved, lt]

theorem ne_of_parent_moved (above : (f.moved old new).parent i = some p) : i ≠ old := by
  rintro rfl
  rw [parent_moved_old] at above
  cases above

theorem slots_moved_parent (hp : f.parent old = some p) :
    (f.moved old new).slots p = (f.slots p).replace old new := by
  cases hc : f.cells[p]? with
  | none =>
    have moved := @cells_moved_self f old new p hp
    rw [hc, Option.map_none] at moved
    simp only [slots, moved, hc]
    rfl
  | some c =>
    have moved := @cells_moved_self f old new p hp
    rw [hc, Option.map_some] at moved
    rw [slots_eq moved, slots_eq hc, Cell.slots_refill]

theorem slots_moved_of_ne (h : f.parent old ≠ some i) :
    (f.moved old new).slots i = f.slots i := by
  cases hp : f.parent old with
  | none => simp only [slots, cells_moved_of_detached hp]
  | some p =>
    have ne : i ≠ p := by
      rintro rfl
      exact h hp
    simp only [slots, cells_moved_of_ne hp ne]

/-- In the slots of the parent, `new` counts once more and `old` once less. -/
theorem count_slots_moved (new : Nat) (hp : f.parent old = some p) (slot : old ∈ f.slots p)
    (c : Nat) :
    ((f.moved old new).slots p).count c =
      (f.slots p).count c + (if new = c then 1 else 0) - (if old = c then 1 else 0) := by
  have contains : (f.slots p).contains old = true := by simpa using slot
  rw [slots_moved_parent hp, List.count_replace, if_pos contains]
  simp

/-- Only a node that makes way for its own operand has a slot that holds what may move. -/
theorem notMem_slots_of_keeps (keeps : f.Keeps i) (movable : f.movable old new = true)
    (spares : ¬ (f.parent new = some old ∧ i = old)) : new ∉ f.slots i := by
  intro slot
  have above := (keeps new slot).1
  rcases movable_iff.mp movable with ⟨detached, -⟩ | child
  · rw [detached] at above
    cases above
  · rw [child, Option.some.injEq] at above
    exact spares ⟨child, above.symm⟩

theorem root_moved_cases {r : Nat} (hr : (f.moved old new).root = some r) :
    (f.parent old = none ∧ r = new) ∨
      (f.root = some r ∧ ¬ (f.parent old = none ∧ f.root = some old)) := by
  simp only [moved] at hr
  split at hr
  · next top =>
    rw [Option.some.injEq] at hr
    exact Or.inl ⟨top.1, hr.symm⟩
  · next off => exact Or.inr ⟨hr, off⟩

namespace Bonded

variable (h : f.Bonded spent) (ne : old ≠ new) (hnew : new < f.size)

include h ne hnew

/-- The parent of `old` keeps `new` in its place. -/
theorem keeps_moved_parent (keeps : f.Keeps i) (off : new ∉ f.slots i)
    (hp : f.parent old = some i) : (f.moved old new).Keeps i := by
  have slot := h.mem_slots old i hp
  have count := count_slots_moved new hp slot
  have once : (f.slots i).count new = 0 := List.count_eq_zero.mpr off
  have single := (keeps old slot).2
  intro c hc
  have pos : 0 < ((f.moved old new).slots i).count c := List.count_pos_iff.mpr hc
  by_cases isNew : new = c
  · subst isNew
    rw [parent_moved_new h.sizes hnew ne]
    refine ⟨hp, ?_⟩
    rw [count, once, if_pos rfl, if_neg ne]
  · have isOld : old ≠ c := by
      rintro rfl
      rw [count, single, if_neg isNew, if_pos rfl] at pos
      omega
    rw [count, if_neg isNew, if_neg isOld] at pos
    obtain ⟨above, one⟩ := keeps c (List.count_pos_iff.mp pos)
    rw [parent_moved_of_ne (Ne.symm isNew) (Ne.symm isOld), count, if_neg isNew, if_neg isOld]
    exact ⟨above, one⟩

theorem keeps_moved (keeps : f.Keeps i) (movable : f.movable old new = true)
    (spares : ¬ (f.parent new = some old ∧ i = old)) : (f.moved old new).Keeps i := by
  have off := notMem_slots_of_keeps keeps movable spares
  by_cases hp : f.parent old = some i
  · exact h.keeps_moved_parent ne hnew keeps off hp
  · intro c hc
    rw [slots_moved_of_ne hp] at hc ⊢
    have isNew : c ≠ new := by
      rintro rfl
      exact off hc
    have isOld : c ≠ old := by
      rintro rfl
      exact hp (keeps c hc).1
    rw [parent_moved_of_ne isNew isOld]
    exact keeps c hc

omit hnew in
/-- What the parent of `old` keeps now it kept before. -/
theorem keeps_of_keeps_moved_parent (keeps : (f.moved old new).Keeps i)
    (hp : f.parent old = some i) : f.Keeps i := by
  have count := count_slots_moved new hp (h.mem_slots old i hp)
  have after (d : Nat) (hd : 0 < ((f.moved old new).slots i).count d) :
      (f.moved old new).parent d = some i ∧ ((f.moved old new).slots i).count d = 1 :=
    keeps d (List.count_pos_iff.mp hd)
  intro c slot
  have pos : 0 < (f.slots i).count c := List.count_pos_iff.mpr slot
  by_cases isOld : old = c
  · subst isOld
    refine ⟨hp, ?_⟩
    by_contra twice
    have left : 0 < ((f.moved old new).slots i).count old := by
      rw [count, if_neg ne.symm, if_pos rfl]
      omega
    have above := (after old left).1
    rw [parent_moved_old] at above
    cases above
  · have isNew : new ≠ c := by
      rintro rfl
      have count := count new
      rw [if_pos rfl, if_neg ne] at count
      have one := (after new (by omega)).2
      omega
    have same := count c
    rw [if_neg isNew, if_neg isOld] at same
    obtain ⟨above, one⟩ := after c (by omega)
    rw [parent_moved_of_ne isNew.symm (Ne.symm isOld)] at above
    exact ⟨above, by omega⟩

theorem keeps_of_keeps_moved (keeps : (f.moved old new).Keeps i) : f.Keeps i := by
  by_cases hp : f.parent old = some i
  · exact h.keeps_of_keeps_moved_parent ne keeps hp
  · have same : (f.moved old new).slots i = f.slots i := slots_moved_of_ne hp
    intro c slot
    obtain ⟨above, one⟩ := keeps c (same ▸ slot)
    have isOld := ne_of_parent_moved above
    have isNew : c ≠ new := by
      rintro rfl
      rw [parent_moved_new h.sizes hnew ne] at above
      exact hp above
    rw [parent_moved_of_ne isNew isOld] at above
    exact ⟨above, same ▸ one⟩

/-- A node that made way for its own operand does not keep it. -/
theorem not_keeps_moved_old (child : f.parent new = some old) :
    ¬ (f.moved old new).Keeps old := by
  intro keeps
  have slot := h.mem_slots new old child
  by_cases hp : f.parent old = some old
  · have count := count_slots_moved new hp (h.mem_slots old old hp) new
    have pos : 0 < (f.slots old).count new := List.count_pos_iff.mpr slot
    rw [if_pos rfl, if_neg ne] at count
    have held : 0 < ((f.moved old new).slots old).count new := by omega
    have one := (keeps new (List.count_pos_iff.mp held)).2
    omega
  · have same : (f.moved old new).slots old = f.slots old := slots_moved_of_ne hp
    have above := (keeps new (same ▸ slot)).1
    rw [parent_moved_new h.sizes hnew ne] at above
    exact hp above

omit ne hnew in
/-- Apart from `new`, the slots hold what they held before. -/
theorem mem_slots_moved (slot : c ∈ (f.moved old new).slots i) : c = new ∨ c ∈ f.slots i := by
  by_cases hp : f.parent old = some i
  · by_cases isNew : new = c
    · exact Or.inl isNew.symm
    · have count := count_slots_moved new hp (h.mem_slots old i hp) c
      have pos := List.count_pos_iff.mpr slot
      rw [if_neg isNew] at count
      exact Or.inr (List.count_pos_iff.mp (by omega))
  · rw [slots_moved_of_ne hp] at slot
    exact Or.inr slot

theorem mem_slots_of_parent_moved (above : (f.moved old new).parent c = some p) :
    c ∈ (f.moved old new).slots p := by
  have isOld := ne_of_parent_moved above
  by_cases isNew : c = new
  · subst isNew
    rw [parent_moved_new h.sizes hnew ne] at above
    have count := count_slots_moved c above (h.mem_slots old p above) c
    rw [if_pos rfl, if_neg ne] at count
    exact List.count_pos_iff.mp (by omega)
  · rw [parent_moved_of_ne isNew isOld] at above
    have slot := h.mem_slots c p above
    by_cases hp : f.parent old = some p
    · have count := count_slots_moved new hp (h.mem_slots old p hp) c
      have pos := List.count_pos_iff.mpr slot
      rw [if_neg (Ne.symm isNew), if_neg (Ne.symm isOld)] at count
      exact List.count_pos_iff.mp (by omega)
    · rw [slots_moved_of_ne hp]
      exact slot

theorem root_detached_moved (movable : f.movable old new = true) {r : Nat}
    (hr : (f.moved old new).root = some r) : (f.moved old new).parent r = none := by
  rcases root_moved_cases hr with ⟨detached, rfl⟩ | ⟨root, off⟩
  · rw [parent_moved_new h.sizes hnew ne, detached]
  · have free := h.root_detached r root
    have isOld : r ≠ old := by
      rintro rfl
      exact off ⟨free, root⟩
    have isNew : r ≠ new := by
      rintro rfl
      rcases movable_iff.mp movable with ⟨-, apart⟩ | child
      · exact apart root
      · rw [free] at child
        cases child
    rw [parent_moved_of_ne isNew isOld, free]

theorem moved (movable : f.movable old new = true) : (f.moved old new).Bonded
    (if f.parent new = some old then old :: spent else spent) where
  sizes := sizes_moved h.sizes old new
  slots_lt i c slot := by
    rw [size_moved]
    rcases h.mem_slots_moved slot with rfl | slot
    · exact hnew
    · exact h.slots_lt i c slot
  root_lt r hr := by
    rw [size_moved]
    rcases root_moved_cases hr with ⟨-, rfl⟩ | ⟨root, -⟩
    · exact hnew
    · exact h.root_lt r root
  root_detached r hr := h.root_detached_moved ne hnew movable hr
  mem_slots c p above := h.mem_slots_of_parent_moved ne hnew above
  keeps_iff i := by
    by_cases child : f.parent new = some old
    · rw [if_pos child, List.mem_cons, not_or, ← h.keeps_iff]
      constructor
      · intro keeps
        refine ⟨?_, h.keeps_of_keeps_moved ne hnew keeps⟩
        rintro rfl
        exact h.not_keeps_moved_old ne hnew child keeps
      · rintro ⟨other, keeps⟩
        exact h.keeps_moved ne hnew keeps movable fun spares => other spares.2
    · rw [if_neg child, ← h.keeps_iff]
      constructor
      · exact h.keeps_of_keeps_moved ne hnew
      · intro keeps
        exact h.keeps_moved ne hnew keeps movable fun spares => child spares.1

/-! ### Every edit -/

omit ne hnew in
/-- A node that is recorded as a parent has slots. -/
theorem holder (p : Nat) (hp : f.parent old = some p) :
    ∃ c, f.cells[p]? = some c ∧ c.isLeaf = false := by
  have slot := h.mem_slots old p hp
  cases hc : f.cells[p]? with
  | none =>
    simp only [slots, hc] at slot
    cases slot
  | some c =>
    rw [slots_eq hc] at slot
    refine ⟨c, rfl, ?_⟩
    cases c with
    | number x => cases slot
    | var key => cases slot
    | unary op a => rfl
    | binary op a b => rfl

omit ne hnew in
theorem compact (whole : ∀ i ∈ spent, ¬ f.Live i) : f.compact.Bonded [] := by
  obtain ⟨l?, held⟩ := (h.treeShaped whole).exists_holds
  cases l? with
  | none =>
    have root : f.root = none := held.root
    rw [compact_of_rootless root]
    refine ⟨rfl, ?_, ?_, ?_, ?_, ?_⟩
    all_goals simp [slots, parent, Keeps]
  | some l =>
    have root : f.root = some l.top := held.root
    obtain ⟨l', term, compacted⟩ := held.compact 0
    apply compacted.bonded
    rw [term, size_compact held.fits_live root, preorder_eq held.fits_live, List.length_reverse,
      l.length_descendants]

end Bonded

end Forest

end Fluxion
