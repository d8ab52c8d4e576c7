import Fluxion.Proofs.Derivative.Soundness
import Fluxion.Proofs.Derivative.Table
import Fluxion.Proofs.Forest.Beside
import Fluxion.Proofs.Forest.Substitution

/-!
# The exchange of an expression for its derivative

Differentiation of a live node is exact. The derivative is the one of the table, it is made of
all the cells that are added and of no others, and apart from the place of the node nothing that
was there has changed.
-/

namespace Fluxion

open Forest

/-! ### Derivatives are built beside what is there -/

namespace Edit

variable {base : Forest}

theorem slopeOf_beside {slopes : Array (Option Nat)} (new : ∀ d, some d ∈ slopes → base.size ≤ d)
    (i : Nat) : (slopeOf slopes i).BuildsBeside base := by
  unfold slopeOf
  cases entry : slopes[i]?.join with
  | none => exact .throw trivial
  | some d =>
    exact .pure (new d (Array.mem_of_getElem? (Option.join_eq_some_iff.mp entry)))

theorem follow_beside {operand : Side → Nat} {slope : Side → Edit Nat} (recipe : Recipe)
    (new : ∀ side, (slope side).BuildsBeside base) :
    (follow operand slope recipe).BuildsBeside base := by
  induction recipe with
  | number x => exact allocate_beside (by simp [Cell.slots])
  | operand side => exact copy_beside (operand side)
  | slope side => exact new side
  | unary op r ih => exact ih.bind fun a ha => applyUnary_beside op ha
  | binary op r s ihr ihs =>
    exact ihr.bind fun a ha => ihs.bind fun b hb => applyBinary_beside op ha hb
  | rightFirst op r s ihr ihs =>
    exact ihs.bind fun b hb => ihr.bind fun a ha => applyBinary_beside op ha hb

end Edit

namespace Watch

variable {σ : Type} {base : Forest}

/-- The change builds beside `base`, and what it gives is new. -/
abbrev BuildsBeside (base : Forest) (x : Watch σ Nat) : Prop :=
  Ensures (fun w => base.Beside w.forest) (base.size ≤ ·) (fun _ => True) x

theorem deriveNode_beside (sink : Sink σ) (key : Key) (depends : Array Bool)
    {slopes : Array (Option Nat)} (new : ∀ d, some d ∈ slopes → base.size ≤ d) (i : Nat) :
    (deriveNode sink key depends slopes i).BuildsBeside base := by
  have number (x : Float) : (Edit.number x).BuildsBeside base :=
    Edit.allocate_beside (by simp [Cell.slots])
  refine .andThen (.act (.look fun _ _ => trivial)) fun c? => ?_
  cases c? with
  | none => exact .throw trivial
  | some c =>
    cases c with
    | number x => exact .act (number 0)
    | var k => exact .act (number (if k = key then 1 else 0))
    | unary op a =>
      refine (Ensures.act (Edit.slopeOf_beside new a)).bind fun a' ha' => ?_
      refine (Ensures.act (Edit.follow_beside op.recipe fun _ => .pure ha')).bind fun d hd => ?_
      exact .andThen (.report sink _) fun _ => .pure hd
    | binary op a b =>
      refine (Ensures.act (Edit.follow_beside _ fun side =>
        Edit.slopeOf_beside new (onSides a b side))).bind fun d hd => ?_
      exact .andThen (.report sink _) fun _ => .pure hd

theorem derive_beside (sink : Sink σ) (i : Nat) (key : Key) :
    (derive sink i key).BuildsBeside base := by
  refine .andThen (.act (.look fun _ _ => trivial)) fun order => ?_
  refine .andThen (.act (.look fun _ _ => trivial)) fun depends => ?_
  refine .andThen (.act (.look fun _ _ => trivial)) fun demanded => ?_
  refine .andThen (.act (.look fun _ _ => trivial)) fun size => ?_
  have built : Ensures (fun w : Watched σ => base.Beside w.forest)
      (fun slopes : Array (Option Nat) => ∀ d, some d ∈ slopes → base.size ≤ d) (fun _ => True)
      (order.foldlM (deriveDemanded sink key depends demanded) (Array.replicate size none)) := by
    refine .foldlM (fun slopes new j _ => ?_) (by simp)
    unfold deriveDemanded
    by_cases demand : Forest.flag demanded j
    · rw [if_pos demand]
      refine (deriveNode_beside sink key depends new j).bind fun d hd => .pure fun d' hd' => ?_
      rcases Array.mem_or_eq_of_mem_setIfInBounds hd' with before | now
      · exact new d' before
      · cases now
        exact hd
    · rw [if_neg demand]
      exact .pure new
  exact built.bind fun slopes new => .act (Edit.slopeOf_beside new i)

end Watch

/-! ### The exchange -/

namespace Forest

/-- In `g` the node `d` has taken the place that `i` has in `f`. All other cells of `f`, their
parents and the root are as they were. -/
structure Exchanged (f g : Forest) (i d : Nat) : Prop extends f.InPlaceOf g i d where
  otherRoot : f.root ≠ some i → g.root = f.root
  cells : ∀ j < f.size, f.parent i ≠ some j → g.cells[j]? = f.cells[j]?
  parents : ∀ j < f.size, j ≠ i → g.parent j = f.parent j
  detached : g.parent i = none
  retired : g.retired = f.retired.push i
  registry : g.registry = f.registry

/-- What was built beside a forest takes the place of one of its nodes. -/
theorem Beside.exchanged {base f : Forest} {i d : Nat} (h : base.Beside f) (old : i < base.size)
    (new : base.size ≤ d) (place : base.InPlaceOf (f.moved i d) i d) :
    base.Exchanged (f.moved i d) i d where
  toInPlaceOf := place
  otherRoot ne := by
    rw [← h.root] at ne ⊢
    simp [moved, ne]
  cells j hj ne := by
    rw [← h.parents i old] at ne
    rw [← h.cells j hj]
    cases above : f.parent i with
    | none => rw [cells_moved_of_detached above]
    | some p =>
      have other : j ≠ p := by
        rintro rfl
        exact ne above
      exact cells_moved_of_ne above other
  parents j hj ne :=
    (parent_moved_of_ne (Nat.ne_of_lt (Nat.lt_of_lt_of_le hj new)) ne).trans (h.parents j hj)
  detached := parent_moved_old f i d
  retired := congrArg (Array.push · i) h.retired
  registry := h.registry

end Forest

variable {σ : Type} {f : Forest} {m : Mark} {k : Context} {t : Tree} {ts : List Tree}

/-- The derivative of a part takes its place, and is made of all new cells. -/
theorem Watch.differentiate_exchanges (sink : Sink σ) (key : Key) (notes : σ)
    (h : f.Holds m (some (k.plug t)) ts) :
    ∃ u g notes', differentiate sink t.top key ⟨f, notes⟩ = .ok u.top ⟨g, notes'⟩ ∧
      u.term = t.term.derivative key ∧ g.Holds m (some (k.plug u)) ts ∧ t.Fits g.cells ∧
      u.nodes.Perm (List.range' f.size u.term.size) ∧ g.size = f.size + u.term.size ∧
      f.Exchanged g t.top u.top := by
  have fits := (Context.fits_plug.mp h.fits_live).1
  obtain ⟨u, f₁, notes₁, h₁, term, built, size, -⟩ := derive_part sink key notes h
  have beside := derive_beside sink t.top key ⟨f, notes⟩ (Beside.refl f)
  rw [h₁] at beside
  obtain ⟨beside, new⟩ := beside
  obtain ⟨hg, held⟩ := built.replace
  have nodes : u.nodes.Perm (List.range' f.size u.term.size) := by
    have within : u.nodes ⊆ List.range' f.size u.term.size := by
      intro i hi
      rw [List.mem_range'_1, ← size]
      exact ⟨beside.nodes_new built.fits new i hi, built.fits.lt i hi⟩
    refine (built.bring.nodup_head.subperm within).perm_of_length_le ?_
    rw [List.length_range', u.length_nodes]
  have exchanged : f.Exchanged (f₁.moved t.top u.top) t.top u.top :=
    beside.exchanged fits.top_lt new (h.inPlaceOf held)
  exact ⟨u, _, _, differentiate_of_derive fits.top_lt h₁ hg, term, held,
    built.fits_part_moved u.top, nodes, (size_moved f₁ t.top u.top).trans size, exchanged⟩

/-- Differentiating at a live node puts the derivative of the table in its place, and leaves all
else as it was. -/
theorem differentiate_exact (sink : Sink σ) (notes : σ) (f : Forest) (shaped : f.TreeShaped)
    (i : Nat) (live : f.Live i) (key : Key) :
    ∃ (d : Nat) (g : Forest) (notes' : σ) (e : Term Key),
      Watch.differentiate sink i key ⟨f, notes⟩ = .ok d ⟨g, notes'⟩ ∧
      f.term? i = some e ∧ g.term? i = some e ∧ g.term? d = some (e.byTable key) ∧
      (∀ j, f.Live j → ∃ s, f.term? j = some s ∧ f.dependsOn? j key = some (s.dependsOn key)) ∧
      (g.postorder d).Perm (List.range' f.size (e.byTable key).size) ∧
      g.size = f.size + (e.byTable key).size ∧ f.Exchanged g i d ∧
      ∃ r r' whole, f.root = some r ∧ g.root = some r' ∧
        f.termPutting? i (e.byTable key) r = some whole ∧ g.term? r' = some whole := by
  obtain ⟨l, holds⟩ := shaped.exists_holds_some (live.imp fun _ h => h.1)
  obtain ⟨k, t, rfl, rfl⟩ := Tree.exists_plug (holds.live_iff.mp live)
  obtain ⟨u, g, notes', hd, term, held, kept, nodes, size, exchanged⟩ :=
    Watch.differentiate_exchanges sink key notes holds
  have fits := (Context.fits_plug.mp holds.fits_live).1
  have built := (Context.fits_plug.mp held.fits_live).1
  rw [t.term.derivative_eq_byTable] at term
  refine ⟨u.top, g, notes', t.term, hd, term?_eq fits, term?_eq kept, ?_, ?_, ?_, ?_, exchanged,
    (k.plug t).top, (k.plug u).top, (k.plug u).term, holds.root, held.root, ?_,
    term?_eq held.fits_live⟩
  · rw [← term]
    exact term?_eq built
  · intro j hj
    obtain ⟨k', s, whole, rfl⟩ := Tree.exists_plug (holds.live_iff.mp hj)
    have part := (Context.fits_plug.mp (whole ▸ holds.fits_live)).1
    exact ⟨s.term, term?_eq part, part.dependsOn?_eq key⟩
  · rw [postorder_eq built, ← term]
    exact nodes
  · rw [← term]
    exact size
  · rw [← term]
    exact termPutting?_plug holds.fits_live holds.stands.top_notMem_context

/-- The forest of `sin((x / 2) ^ 3)`. A retired cosine still names the variable. -/
def sineOfPower : Forest where
  cells := #[.var (.ofSymbol 'x'), .number 2, .binary .div 0 1, .number 3, .binary .pow 2 3,
    .unary .sin 4, .unary .cos 0]
  parents := #[some 2, some 2, some 4, some 4, some 5, none, none]
  root := some 5
  retired := #[6]
  registry := ⟨[⟨'x', none⟩]⟩

theorem sineOfPower_holds :
    sineOfPower.Holds ⟨sineOfPower.registry, 1⟩
      (some (.unary 5 .sin (.binary 4 .pow
        (.binary 2 .div (.var 0 (.ofSymbol 'x')) (.number 1 2)) (.number 3 3)))) [] := by
  refine holds_of_tree rfl rfl ?_ ?_ rfl (by decide) (by decide)
  · exact ⟨rfl, rfl, ⟨rfl, rfl, rfl⟩, rfl⟩
  · exact ⟨rfl, rfl, rfl, ⟨rfl, rfl, trivial, trivial⟩, trivial⟩

/-- The power has a constant exponent and the quotient in it a constant divisor, so neither the
exponent nor the divisor is differentiated. -/
theorem differentiate_power_exact :
    sineOfPower.TreeShaped ∧ sineOfPower.Live 4 ∧
      ∃ (d : Nat) (g : Forest) (notes : Unit),
        Watch.differentiate Sink.silent 4 (.ofSymbol 'x') ⟨sineOfPower, ()⟩ = .ok d ⟨g, notes⟩ ∧
        g.cells[5]? = some (.unary .sin d) ∧ g.cells[6]? = some (.unary .cos 0) ∧
        g.retired = #[6, 4] ∧ g.size = 20 ∧
        g.term? d = some (.binary .mul (.binary .mul (.number 3)
          (.binary .pow (.binary .div (.var (.ofSymbol 'x')) (.number 2))
            (.binary .sub (.number 3) (.number 1))))
          (.binary .div (.number 1) (.number 2))) := by
  have shaped := sineOfPower_holds.treeShaped
  have live : sineOfPower.Live 4 := sineOfPower_holds.live_iff.mpr (by decide)
  obtain ⟨d, g, notes, e, hd, he, -, hd', -, -, size, exchanged, -⟩ :=
    differentiate_exact Sink.silent () sineOfPower shaped 4 live (.ofSymbol 'x')
  have power : sineOfPower.term? 4 = some (.binary .pow
    (.binary .div (.var (.ofSymbol 'x')) (.number 2)) (.number 3)) := by decide
  cases he.symm.trans power
  refine ⟨shaped, live, d, g, notes, hd, (exchanged.slot 5 rfl).2,
    exchanged.cells 6 (by decide) (by decide), exchanged.retired, size, hd'⟩

end Fluxion
