import Fluxion.Proofs.Forest.BondedEdits
import Fluxion.Proofs.Forest.Substitution

/-!
# Replacement as substitution

A live node makes way for one of its operands, or for a detached tree. In the term of the root,
the term of the new node then stands where that of the old one stood. One slot changes, or the
root, and beside it the recorded parents of the two nodes; every expression that does not contain
the old node, and the old node itself, stand for the same terms as before.
-/

namespace Fluxion

namespace Forest

/-- A tree of its own: its top is neither in a slot nor the root, the walk from it ends and
visits no node twice, and what fills a slot in it records that as its parent. -/
structure Detached (f : Forest) (i : Nat) : Prop where
  free : f.parent i = none
  rootless : f.root ≠ some i
  walk : ∃ ns, f.Walk i ns ∧ ns.Nodup
  linked : ∀ p, f.Reaches i p → ∀ c ∈ f.slots p, f.parent c = some p

/-- In `g` the node `j` stands where in `f` the node `i` stood: as the root, or in the slot
of the same node, whose other slot is as it was. -/
structure InPlaceOf (f g : Forest) (i j : Nat) : Prop where
  root : f.root = some i → g.root = some j
  slot : ∀ p, f.parent i = some p →
    g.parent j = some p ∧ g.cells[p]? = (f.cells[p]?).map (Cell.refill i j)

/-- Nothing but the place of `old`, its parent and that of `new` differs between `f` and `g`. -/
structure Replaced (f g : Forest) (old new : Nat) : Prop extends f.InPlaceOf g old new where
  otherRoot : f.root ≠ some old → g.root = f.root
  size : g.size = f.size
  cells : ∀ j, f.parent old ≠ some j → g.cells[j]? = f.cells[j]?
  parents : ∀ j, j ≠ old → j ≠ new → g.parent j = f.parent j
  parentOld : g.parent old = none
  parentNew : g.parent new = f.parent old
  retired : g.retired = f.retired.push old
  registry : g.registry = f.registry

variable {f g : Forest} {m : Mark} {k : Context} {l s t n : Tree} {ts us : List Tree}
  {i j old new : Nat}

/-! ### Terms that do not change -/

theorem termWithin?_congr (same : ∀ j, f.Reaches i j → g.cells[j]? = f.cells[j]?) (depth : Nat) :
    termWithin? g.cells depth i = termWithin? f.cells depth i := by
  induction depth generalizing i with
  | zero => rfl
  | succ depth ih =>
    have operand {a : Nat} (slot : a ∈ f.slots i) :
        termWithin? g.cells depth a = termWithin? f.cells depth a :=
      ih fun j path => same j (.head slot path)
    rw [termWithin?, termWithin?, same i .refl]
    cases hc : f.cells[i]? with
    | none => rfl
    | some c =>
      have slots := slots_eq hc
      cases c with
      | number x => rfl
      | var key => rfl
      | unary op a => simp only [operand (a := a) (by simp [slots, Cell.slots])]
      | binary op a b =>
        simp only [operand (a := a) (by simp [slots, Cell.slots]),
          operand (a := b) (by simp [slots, Cell.slots])]

/-- What a node stands for depends on the cells that it reaches. -/
theorem term?_congr (size : g.size = f.size)
    (same : ∀ j, f.Reaches i j → g.cells[j]? = f.cells[j]?) : g.term? i = f.term? i := by
  rw [term?, term?, size]
  exact termWithin?_congr same f.size

/-- Away from the old node nothing is different: whatever reaches the changed slot reaches the
old node through it. -/
theorem Replaced.term?_eq (h : f.Replaced g old new)
    (mem_slots : ∀ p, f.parent old = some p → old ∈ f.slots p) (off : ¬ f.Reaches i old) :
    g.term? i = f.term? i := by
  apply term?_congr h.size
  intro j path
  apply h.cells
  intro above
  exact off (path.tail (mem_slots j above))

/-! ### Detached trees -/

/-- The recorded parents are those of the tree if every slot in it is recorded. -/
theorem linked_of_slots (fits : t.Fits f.cells)
    (linked : ∀ p ∈ t.nodes, ∀ c ∈ f.slots p, f.parent c = some p) : t.Linked f.parent := by
  induction t with
  | number i x => trivial
  | var i key => trivial
  | unary i op t ih =>
    refine ⟨linked i (by simp) _ ?_, ih fits.2 fun p hp => linked p (by simp [hp])⟩
    simp [slots_eq fits.1, Cell.slots]
  | binary i op s t ihs iht =>
    refine ⟨linked i (by simp) _ ?_, linked i (by simp) _ ?_,
      ihs fits.2.1 fun p hp => linked p (by simp [hp]),
      iht fits.2.2 fun p hp => linked p (by simp [hp])⟩
    · simp [slots_eq fits.1, Cell.slots]
    · simp [slots_eq fits.1, Cell.slots]

/-- A node of a detached tree is not live: its recorded parent would be live as well, and so on
up to the top, which has none. -/
theorem Detached.not_live (h : f.Detached i) (shaped : f.TreeShaped) (path : f.Reaches i j) :
    ¬ f.Live j := by
  induction path with
  | refl =>
    intro live
    obtain ⟨p, above, -⟩ := shaped.attached i live h.rootless
    rw [h.free] at above
    cases above
  | @tail b c path slot ih =>
    intro live
    have above : f.parent c = some b := h.linked b path c slot
    by_cases root : f.root = some c
    · rw [shaped.root c root] at above
      cases above
    · obtain ⟨p, parent, higher, -⟩ := shaped.attached c live root
      rw [above, Option.some.injEq] at parent
      exact ih (parent ▸ higher)

/-- A detached tree stands beside the live one. -/
theorem Detached.exists_holds (h : f.Detached i) (shaped : f.TreeShaped)
    (held : f.Holds ⟨f.registry, f.retired.size⟩ (some l) []) :
    ∃ n : Tree, n.top = i ∧ f.Holds ⟨f.registry, f.retired.size⟩ (some l) [n] := by
  obtain ⟨ns, walk, nodup⟩ := h.walk
  obtain ⟨n, rfl, fits, perm⟩ := walk.exists_tree
  have linked : n.Linked f.parent :=
    linked_of_slots fits fun p hp => h.linked p (reachable_of_mem_nodes fits hp)
  have apart : ∀ j ∈ n.nodes, j ∉ nodesOf [l] := by
    intro j hj
    simp only [nodesOf_cons, nodesOf_nil, List.append_nil, ← held.live_iff]
    exact h.not_live shaped (reachable_of_mem_nodes fits hj)
  have past : f.retired.toList.drop f.retired.size = [] :=
    List.drop_eq_nil_of_le (Nat.le_of_eq f.retired.length_toList)
  exact ⟨n, rfl, Holds.of_bring held.root
    (held.stands.cons fits linked h.free (perm.nodup_iff.mp nodup) apart (by simp [past]))⟩

/-! ### Replacement -/

theorem Holds.inPlaceOf {f g : Forest} {m m' : Mark} {k : Context} {s n : Tree}
    {ts us : List Tree} (before : f.Holds m (some (k.plug s)) ts)
    (after : g.Holds m' (some (k.plug n)) us) : f.InPlaceOf g s.top n.top := by
  have above := before.stands.parent_hole
  cases k with
  | nil =>
    constructor
    · intro _
      exact after.root
    · intro p hp
      rw [above] at hp
      cases hp
  | cons c k =>
    have apart := before.stands.top_notMem_context
    have cell := (Context.fits_plug.mp before.fits_live).2.1
    have cell' := (Context.fits_plug.mp after.fits_live).2.1
    constructor
    · intro root
      rw [before.root, Option.map_some, Context.top_plug, Option.some.injEq] at root
      exact absurd (root ▸ Context.top_mem_nodes c k s.top) apart
    · intro p hp
      rw [above] at hp
      cases hp
      refine ⟨after.stands.parent_hole, ?_⟩
      rw [cell, cell', Option.map_some, Frame.refill_cell n.top]
      intro hs
      exact apart (by simp [Context.nodes, hs])

theorem Holds.replaced (held : f.Holds m (some (k.plug s)) ts) (lt : n.top < f.size)
    (ne : s.top ≠ n.top) (after : (f.moved s.top n.top).Holds m (some (k.plug n)) us) :
    f.Replaced (f.moved s.top n.top) s.top n.top where
  toInPlaceOf := held.inPlaceOf after
  otherRoot other := by simp [moved, other]
  size := size_moved f s.top n.top
  cells j other := by
    cases above : f.parent s.top with
    | none => rw [cells_moved_of_detached above]
    | some p =>
      have off : j ≠ p := by
        rintro rfl
        exact other above
      exact cells_moved_of_ne above off
  parents j offOld offNew := parent_moved_of_ne offNew offOld
  parentOld := parent_moved_old f s.top n.top
  parentNew := parent_moved_new held.stands.sizes lt ne
  retired := rfl
  registry := rfl

/-- What both kinds of replacement come to, where the tree `n` takes the place of the part `s`. -/
theorem Holds.substituted (held : f.Holds m (some (k.plug s)) ts) (fits : n.Fits f.cells)
    (ne : s.top ≠ n.top) (after : (f.moved s.top n.top).Holds m (some (k.plug n)) us) :
    (f.moved s.top n.top).TreeShaped ∧ f.Replaced (f.moved s.top n.top) s.top n.top ∧
      (f.moved s.top n.top).term? s.top = f.term? s.top ∧
      ∀ i, ¬ f.Reaches i s.top → (f.moved s.top n.top).term? i = f.term? i := by
  have replaced := held.replaced fits.top_lt ne after
  have part := (Context.fits_plug.mp held.fits_live).1
  refine ⟨after.treeShaped, replaced, ?_, fun i => replaced.term?_eq ?_⟩
  · rw [Forest.term?_eq (held.fits_part_moved n.top), Forest.term?_eq part]
  · intro p above
    have hole := held.stands.parent_hole
    cases k with
    | nil =>
      rw [above] at hole
      cases hole
    | cons c k =>
      rw [above, List.head?_cons, Option.map_some, Option.some.injEq] at hole
      have cell := (Context.fits_plug.mp held.fits_live).2.1
      rw [hole, slots_eq cell]
      cases c <;> simp [Frame.cell, Cell.slots]

/-- Whether it is an operand of the old node or detached, the new one stands in the forest as a
tree, and the old one makes way for it. -/
theorem TreeShaped.exists_replacement (shaped : f.TreeShaped) (live : f.Live old)
    (movable : new ∈ f.slots old ∨ f.Detached new) :
    ∃ (k : Context) (s n : Tree) (ts : List Tree), s.top = old ∧ n.top = new ∧
      f.Holds ⟨f.registry, f.retired.size⟩ (some (k.plug s)) ts ∧ n.Fits f.cells ∧
      s.top ∉ n.nodes ∧ Edit.replace old new f = .ok () (f.moved old new) ∧
      (f.moved old new).Holds ⟨f.registry, f.retired.size⟩ (some (k.plug n)) [] := by
  obtain ⟨l, held⟩ := shaped.exists_holds_some (live.imp fun _ h => h.1)
  obtain ⟨k, s, rfl, rfl⟩ := Tree.exists_plug (held.live_iff.mp live)
  rcases movable with slot | detached
  · have fits := (Context.fits_plug.mp held.fits_live).1
    rw [slots_eq fits.cell] at slot
    obtain ⟨c, n, rfl, rfl⟩ := Tree.exists_fill_of_mem_slots slot
    have top : (c.fill n).top = c.node := by cases c <;> rfl
    have inner : f.Stands _ (Context.plug (c :: k) n :: []) := held.stands
    have outside : (c.fill n).top ∉ n.nodes := by
      intro within
      exact List.disjoint_of_nodup_append inner.nodup_context (top ▸ within) List.mem_cons_self
    obtain ⟨replaced, after⟩ := held.replace_operand
    exact ⟨k, c.fill n, n, [], rfl, rfl, held, (Context.fits_plug (k := [c]).mp fits).1, outside,
      top ▸ replaced, top ▸ after⟩
  · obtain ⟨n, rfl, both⟩ := detached.exists_holds shaped held
    have outside : s.top ∉ n.nodes := by
      intro within
      exact detached.not_live shaped (reachable_of_mem_nodes both.fits within) live
    obtain ⟨replaced, after⟩ := both.replace
    exact ⟨k, s, n, [n], rfl, rfl, both, both.fits, outside, replaced, after⟩

/-- Replacing a live node by one of its operands or by a detached tree substitutes the term of the
new node for that of the old one. -/
theorem replace_substitutes (f : Forest) (shaped : f.TreeShaped) (old new : Nat)
    (live : f.Live old) (movable : new ∈ f.slots old ∨ f.Detached new) :
    ∃ (g : Forest) (r r' : Nat) (e e' whole whole' : Term Key),
      Edit.replace old new f = .ok () g ∧
      f.term? old = some e ∧ f.term? new = some e' ∧
      f.root = some r ∧ f.term? r = some whole ∧ f.termPutting? old e' r = some whole' ∧
      g.root = some r' ∧ g.term? r' = some whole' ∧
      (∀ i, ¬ f.Reaches i old → g.term? i = f.term? i) ∧
      old ∈ g.retired ∧ g.term? old = some e ∧
      g.TreeShaped ∧ f.Replaced g old new ∧
      ((∀ i ∈ f.retired, ¬ f.Live i ∧ ¬ f.Reaches new i) → ∀ i ∈ g.retired, ¬ g.Live i) := by
  obtain ⟨k, s, n, ts, rfl, rfl, held, fits, outside, made, after⟩ :=
    shaped.exists_replacement live movable
  have ne : s.top ≠ n.top := fun same => outside (same ▸ n.top_mem_nodes)
  obtain ⟨shaped', replaced, kept, others⟩ := held.substituted fits ne after
  have part := (Context.fits_plug.mp held.fits_live).1
  refine ⟨_, _, _, s.term, n.term, _, _, made, term?_eq part, term?_eq fits, held.root,
    term?_eq held.fits_live, termPutting?_plug held.fits_live held.stands.top_notMem_context,
    after.root, term?_eq after.fits_live, others, ?_, kept.trans (term?_eq part), shaped',
    replaced, ?_⟩
  · rw [replaced.retired]
    exact Array.mem_push_self
  · intro unretired i hi
    rw [after.live_iff, Context.mem_nodes_plug]
    rw [replaced.retired, Array.mem_push] at hi
    rintro (inNew | inContext)
    · rcases hi with hi | rfl
      · exact (unretired i hi).2 (reachable_of_mem_nodes fits inNew)
      · exact outside inNew
    · rcases hi with hi | rfl
      · exact (unretired i hi).1 (held.live_iff.mpr (Context.mem_nodes_plug.mpr (Or.inr inContext)))
      · exact held.stands.top_notMem_context inContext

/-- The forest of `sin(x - 1)`, beside which `cos(2)` is detached. A retired exponential still
names the variable. -/
def sineOfDifference : Forest where
  cells := #[.var (.ofSymbol 'x'), .number 1, .binary .sub 0 1, .unary .sin 2, .number 2,
    .unary .cos 4, .unary .exp 0]
  parents := #[some 2, some 2, some 3, none, some 5, none, none]
  root := some 3
  retired := #[6]
  registry := ⟨[⟨'x', none⟩]⟩

theorem sineOfDifference_holds :
    sineOfDifference.Holds ⟨sineOfDifference.registry, 1⟩
      (some (.unary 3 .sin (.binary 2 .sub (.var 0 (.ofSymbol 'x')) (.number 1 1)))) [] := by
  refine holds_of_tree rfl rfl ?_ ?_ rfl (by decide) (by decide)
  · exact ⟨rfl, rfl, rfl, rfl⟩
  · exact ⟨rfl, rfl, rfl, trivial, trivial⟩

theorem sineOfDifference_reaches (path : sineOfDifference.Reaches 5 i) : i ∈ [4, 5] := by
  have fits : (Tree.unary 5 .cos (.number 4 2)).Fits sineOfDifference.cells := ⟨rfl, rfl⟩
  exact mem_nodes_of_reachable fits (Tree.top_mem_nodes _) path

theorem sineOfDifference_detached : sineOfDifference.Detached 5 where
  free := rfl
  rootless := by decide
  walk := ⟨[5, 4], .unary rfl (.leaf (by decide) rfl), by decide⟩
  linked p path := by
    have recorded : ∀ p ∈ [4, 5], ∀ c ∈ sineOfDifference.slots p,
        sineOfDifference.parent c = some p := by decide
    exact recorded p (sineOfDifference_reaches path)

/-- The difference makes way for its right operand, which its slot still names afterwards, and the
sine for the detached cosine. -/
theorem replace_substitutes_sineOfDifference :
    sineOfDifference.TreeShaped ∧
      (∃ g : Forest, Edit.replace 2 1 sineOfDifference = .ok () g ∧ g.root = some 3 ∧
        g.term? 3 = some (.unary .sin (.number 1)) ∧
        g.term? 2 = some (.binary .sub (.var (.ofSymbol 'x')) (.number 1)) ∧
        g.parent 1 = some 3 ∧ g.parent 2 = none ∧ g.parent 0 = some 2 ∧
        g.term? 5 = some (.unary .cos (.number 2))) ∧
      ∃ g : Forest, Edit.replace 3 5 sineOfDifference = .ok () g ∧ g.root = some 5 ∧
        g.retired = #[6, 3] ∧ g.parent 5 = none := by
  have shaped := sineOfDifference_holds.treeShaped
  have difference : sineOfDifference.Live 2 := sineOfDifference_holds.live_iff.mpr (by decide)
  have sine : sineOfDifference.Live 3 := sineOfDifference_holds.live_iff.mpr (by decide)
  obtain ⟨g, r, r', e, e', -, whole', made, he, he', root, -, put, root', stands, others, -, kept,
    -, replaced, -⟩ := replace_substitutes sineOfDifference shaped 2 1 difference
      (.inl (by decide))
  obtain ⟨h, -, -, -, -, -, -, made', -, -, -, -, -, -, -, -, -, -, -, replaced', -⟩ :=
    replace_substitutes sineOfDifference shaped 3 5 sine (.inr sineOfDifference_detached)
  have one : sineOfDifference.term? 1 = some (.number 1) := by decide
  have whole : sineOfDifference.termPutting? 2 (.number 1) 3 =
    some (.unary .sin (.number 1)) := by decide
  have unchanged : g.root = some 3 := replaced.otherRoot (by decide)
  cases he'.symm.trans one
  cases root
  cases put.symm.trans whole
  cases root'.symm.trans unchanged
  have apart : ¬ sineOfDifference.Reaches 5 2 := fun path =>
    absurd (sineOfDifference_reaches path) (by decide)
  refine ⟨shaped, ⟨g, made, unchanged, stands, ?_, ?_, replaced.parentOld, ?_, ?_⟩,
    h, made', replaced'.root rfl, replaced'.retired, replaced'.parentNew⟩
  · rw [kept, ← he]
    decide
  · exact (replaced.slot 3 rfl).1
  · exact replaced.parents 0 (by decide) (by decide)
  · rw [others 5 apart]
    decide

end Forest

end Fluxion
