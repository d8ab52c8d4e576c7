import Fluxion.Proofs.Forest.Duplicates

/-!
# Nodes to spare

Of the nodes that are built beside a forest some are used up by others. Those that are not may
still enter a slot, and each of them only once.
-/

namespace Fluxion

namespace Forest

/-- Beside `base` the listed nodes were added, and each of them may still enter a slot. -/
structure Spares (base f : Forest) (ds : List Nat) : Prop where
  sized : f.Sized
  beside : base.Beside f
  nodup : ds.Nodup
  new : ∀ d ∈ ds, base.size ≤ d
  free : ∀ d ∈ ds, f.unfree? d = none

namespace Spares

variable {base f g : Forest} {a b d : Nat} {ds es : List Nat}

theorem nil (sized : base.Sized) : base.Spares base [] :=
  ⟨sized, .refl base, List.nodup_nil, nofun, nofun⟩

theorem lt (h : base.Spares f ds) : ∀ d ∈ ds, d < f.size := fun d hd =>
  (unfree?_eq_none_iff.mp (h.free d hd)).1

theorem perm (h : base.Spares f ds) (p : ds.Perm es) : base.Spares f es where
  sized := h.sized
  beside := h.beside
  nodup := p.nodup_iff.mp h.nodup
  new d hd := h.new d (p.mem_iff.mpr hd)
  free d hd := h.free d (p.mem_iff.mpr hd)

/-- A node behind all those of `f` shows that there are more. -/
theorem size_le (h : base.Spares g (d :: ds)) (fresh : f.size ≤ d) : f.size ≤ g.size :=
  fresh.trans (Nat.le_of_lt (h.lt d List.mem_cons_self))

/-- Nodes need not be used. -/
theorem tail (h : base.Spares f (d :: ds)) : base.Spares f ds where
  sized := h.sized
  beside := h.beside
  nodup := (List.nodup_cons.mp h.nodup).2
  new e he := h.new e (List.mem_cons_of_mem d he)
  free e he := h.free e (List.mem_cons_of_mem d he)

/-- A node that is added is one to spare, and the others are as long as nothing was done to
them. -/
theorem cons (h : base.Spares f ds) (start : base.Sized) (sized : g.Sized)
    (beside : base.Beside g) (fresh : f.size ≤ d) (lt : d < g.size) (detached : g.parent d = none)
    (kept : ∀ e ∈ ds, g.parent e = f.parent e) : base.Spares g (d :: ds) := by
  have new : ∀ e ∈ d :: ds, base.size ≤ e :=
    List.forall_mem_cons.mpr ⟨h.beside.size_le.trans fresh, h.new⟩
  have unrooted {e : Nat} (he : base.size ≤ e) : g.root ≠ some e := by
    rw [beside.root]
    intro root
    exact absurd (start.root_lt e root) (Nat.not_lt.mpr he)
  refine ⟨sized, beside, ?_, new, List.forall_mem_cons.mpr ⟨?_, ?_⟩⟩
  · rw [List.nodup_cons]
    exact ⟨fun hd => absurd (h.lt d hd) (Nat.not_lt.mpr fresh), h.nodup⟩
  · exact unfree?_eq_none_iff.mpr ⟨lt, detached, unrooted (new d List.mem_cons_self)⟩
  · intro e he
    obtain ⟨before, free, -⟩ := unfree?_eq_none_iff.mp (h.free e he)
    exact unfree?_eq_none_iff.mpr ⟨(before.trans_le fresh).trans lt, (kept e he).trans free,
      unrooted (h.new e he)⟩

theorem number (h : base.Spares f ds) (start : base.Sized) (x : Float) :
    ∃ g, Edit.number x f = .ok f.size g ∧ base.Spares g (f.size :: ds) := by
  have gains := h.sized.gains_number x
  refine ⟨f.push (.number x), rfl, h.cons start gains.sized ?_ (Nat.le_refl _)
    gains.fits.top_lt gains.detached ?_⟩
  · exact h.beside.push (by simp [Cell.slots])
  · exact fun e _ => parent_push f _ e

/-- What is read in `base` is copied. -/
theorem copy (h : base.Spares f ds) (start : base.Sized) {s : Tree} (fits : s.Fits base.cells) :
    ∃ d g, Edit.copy s.top f = .ok d g ∧ f.size ≤ d ∧ base.Spares g (d :: ds) := by
  obtain ⟨g, built, gains, -, registry⟩ := h.sized.foldM_gains Edit.copying_builds s.term
  rw [Term.map_id] at built gains
  rw [List.foldl_fixed] at registry
  have kept : f.Beside g := by
    have beside := gains.beside
    rwa [registry] at beside
  refine ⟨_, g, (Holds.copy_eq (h.beside.fits fits)).trans built, gains.new,
    h.cons start gains.sized (h.beside.trans kept) gains.new gains.fits.top_lt gains.detached ?_⟩
  exact fun e he => kept.parents e (h.lt e he)

theorem applyUnary (h : base.Spares f (a :: ds)) (start : base.Sized) (op : Unary) :
    ∃ g, Edit.applyUnary op a f = .ok f.size g ∧ base.Spares g (f.size :: ds) := by
  have free := h.free a List.mem_cons_self
  have new := h.new a List.mem_cons_self
  have apart := (List.nodup_cons.mp h.nodup).1
  have last : a ≠ f.size := Nat.ne_of_lt (h.lt a List.mem_cons_self)
  refine ⟨_, applyUnary_ok op free, h.tail.cons start ((h.sized.push _).link _ _) ?_
    (Nat.le_refl _) ?_ ?_ ?_⟩
  · exact (h.beside.push (by simpa [Cell.slots] using new)).link _ new
  · exact (size_push f _).symm ▸ Nat.lt_succ_self f.size
  · rw [parent_link_of_ne _ last, parent_push]
    exact parent_of_le h.sized.sizes (Nat.le_refl _)
  · intro e he
    rw [parent_link_of_ne _ (by rintro rfl; exact apart he), parent_push]

theorem applyBinary (h : base.Spares f (a :: b :: ds)) (start : base.Sized) (op : Binary) :
    ∃ g, Edit.applyBinary op a b f = .ok f.size g ∧ base.Spares g (f.size :: ds) := by
  obtain ⟨freeLeft, freeRight, -⟩ : f.unfree? a = none ∧ f.unfree? b = none ∧ _ := by
    simpa only [List.forall_mem_cons] using h.free
  obtain ⟨newLeft, newRight, -⟩ : base.size ≤ a ∧ base.size ≤ b ∧ _ := by
    simpa only [List.forall_mem_cons] using h.new
  obtain ⟨ltLeft, ltRight, -⟩ : a < f.size ∧ b < f.size ∧ _ := by
    simpa only [List.forall_mem_cons] using h.lt
  obtain ⟨⟨ne, offLeft⟩, offRight, -⟩ : (a ≠ b ∧ a ∉ ds) ∧ b ∉ ds ∧ ds.Nodup := by
    simpa only [List.nodup_cons, List.mem_cons, not_or] using h.nodup
  refine ⟨_, applyBinary_ok op freeLeft freeRight ne, h.tail.tail.cons start
    (((h.sized.push _).link _ _).link _ _) ?_ (Nat.le_refl _) ?_ ?_ ?_⟩
  · exact ((h.beside.push (by simpa [Cell.slots] using ⟨newLeft, newRight⟩)).link _ newLeft).link _
      newRight
  · exact (size_push f _).symm ▸ Nat.lt_succ_self f.size
  · rw [parent_link_of_ne _ (Nat.ne_of_lt ltRight), parent_link_of_ne _ (Nat.ne_of_lt ltLeft),
      parent_push]
    exact parent_of_le h.sized.sizes (Nat.le_refl _)
  · intro e he
    rw [parent_link_of_ne _ (by rintro rfl; exact offRight he),
      parent_link_of_ne _ (by rintro rfl; exact offLeft he), parent_push]

end Spares

end Forest

end Fluxion
