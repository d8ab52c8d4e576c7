import Fluxion.Proofs.Drawing.Connectors
import Fluxion.Proofs.Forest.Shape
import Fluxion.Proofs.Forest.Traversal

/-!
# The lines of a drawing

The draft lists the nodes of the live tree in preorder, each at its depth. With its connectors, the
line of a node says for every ancestor below the root, and for the node itself, whether it has a
later sibling.
-/

namespace Fluxion

namespace Tree

/-- The nodes below the top in preorder, each with the node whose slot it fills. -/
def visitsBelow : Tree → List (Nat × Option Nat)
  | number .. | var .. => []
  | unary i _ t => (t.top, some i) :: t.visitsBelow
  | binary i _ s t => (s.top, some i) :: s.visitsBelow ++ (t.top, some i) :: t.visitsBelow

/-- The rows of all nodes. -/
def drawn (t : Tree) : List Drawing.Row := ⟨[], t.top⟩ :: t.rows []

theorem perm_rows (t : Tree) (stem : List Connector) :
    (t.top :: (t.rows stem).map Drawing.Row.node).Perm t.nodes := by
  induction t generalizing stem with
  | number i x => exact .refl _
  | var i key => exact .refl _
  | unary i op t ih =>
    exact ((ih (stem ++ [.gap])).cons i).trans (List.perm_append_singleton i t.nodes).symm
  | binary i op s t ihs iht =>
    have both := (ihs (stem ++ [.bar])).append (iht (stem ++ [.gap]))
    rw [rows, List.map_append]
    exact (both.cons i).trans (List.perm_append_singleton i _).symm

theorem perm_drawn (t : Tree) : (t.drawn.map Drawing.Row.node).Perm t.nodes := t.perm_rows []

end Tree

namespace Forest

open Drawing

variable {f : Forest} {cells : Array Cell} {t : Tree}

theorem visitsOnto_eq {depth : Nat} (fits : t.Fits cells) (deep : t.depth ≤ depth)
    (above : Option Nat) (rest : List (Nat × Option Nat)) :
    visitsOnto cells depth above t.top rest = (t.top, above) :: t.visitsBelow ++ rest := by
  induction t generalizing depth above rest with
  | number i x =>
    obtain ⟨d, rfl⟩ := Tree.exists_succ_of_depth_le deep
    rw [visitsOnto, fits.cell]
    rfl
  | var i key =>
    obtain ⟨d, rfl⟩ := Tree.exists_succ_of_depth_le deep
    rw [visitsOnto, fits.cell]
    rfl
  | unary i op t ih =>
    obtain ⟨d, rfl⟩ := Tree.exists_succ_of_depth_le deep
    rw [visitsOnto, fits.cell]
    simp only [Tree.cell]
    rw [ih fits.2 (Nat.le_of_succ_le_succ deep)]
    simp [Tree.visitsBelow]
  | binary i op s t ihs iht =>
    obtain ⟨d, rfl⟩ := Tree.exists_succ_of_depth_le deep
    have both := Nat.max_le.mp (Nat.le_of_succ_le_succ deep)
    rw [visitsOnto, fits.cell]
    simp only [Tree.cell]
    rw [iht fits.2.2 both.2, ihs fits.2.1 both.1]
    simp [Tree.visitsBelow]

/-! ### The draft -/

/-- The visits add the lines of the levels to the draft, and set the depths of no other nodes than
those that are listed. -/
structure Lays (depths : Array Nat) (visits : List (Nat × Option Nat)) (levels : List (Nat × Nat))
    (nodes : List Nat) (depths' : Array Nat) : Prop where
  foldl : ∀ glyphs, visits.foldl Draft.add ⟨depths, glyphs⟩ =
    ⟨depths', glyphs ++ levels.flatMap fun (d, i) => draftLine d i⟩
  size : depths'.size = depths.size
  others : ∀ i, i ∉ nodes → depths'[i]? = depths[i]?

namespace Lays

variable {depths depths₁ depths₂ : Array Nat} {visits visits' : List (Nat × Option Nat)}
  {levels levels' : List (Nat × Nat)} {nodes nodes' : List Nat}

theorem nil (depths : Array Nat) : Lays depths [] [] [] depths :=
  ⟨by simp, rfl, fun _ _ => rfl⟩

theorem append (h : Lays depths visits levels nodes depths₁)
    (h' : Lays depths₁ visits' levels' nodes' depths₂) :
    Lays depths (visits ++ visits') (levels ++ levels') (nodes ++ nodes') depths₂ where
  foldl glyphs := by
    rw [List.foldl_append, h.foldl, h'.foldl, List.flatMap_append]
    congr 1
    apply Array.ext'
    simp
  size := h'.size.trans h.size
  others i off := by
    rw [List.mem_append, not_or] at off
    exact (h'.others i off.2).trans (h.others i off.1)

/-- A node that is reached from another one is one deeper. -/
theorem visit {i p d : Nat} (inside : i < depths.size) (above : depths[p]? = some d) :
    Lays depths [(i, some p)] [(d + 1, i)] [i] (depths.set i (d + 1)) where
  foldl glyphs := by
    simp [Draft.add, above, Array.setIfInBounds, inside]
  size := Array.size_set ..
  others j off := by
    have ne : i ≠ j := by simpa [eq_comm] using off
    exact Array.getElem?_set_ne inside ne

/-- An operand is visited from its operator, and then what is below it. -/
theorem operand {t : Tree} {p d : Nat} (inside : ∀ i ∈ t.nodes, i < depths.size)
    (above : depths[p]? = some d)
    (below : ∀ {depths : Array Nat}, (∀ i ∈ t.nodes, i < depths.size) →
      depths[t.top]? = some (d + 1) → ∃ nodes depths',
        Lays depths t.visitsBelow (t.levels (d + 1)) nodes depths' ∧ nodes ⊆ t.under) :
    ∃ nodes depths', Lays depths ((t.top, some p) :: t.visitsBelow)
      ((d + 1, t.top) :: t.levels (d + 1)) nodes depths' ∧ nodes ⊆ t.nodes := by
  have lt := inside t.top t.top_mem_nodes
  have own := visit lt above
  have size : (depths.set t.top (d + 1) lt).size = depths.size := Array.size_set lt
  obtain ⟨nodes, depths', rest, within⟩ :=
    below (fun i hi => size ▸ inside i hi) (Array.getElem?_set_self lt)
  refine ⟨_, depths', own.append rest, ?_⟩
  rw [List.singleton_append, List.cons_subset]
  exact ⟨t.top_mem_nodes, List.Subset.trans within (List.subset_append_left _ _)⟩

end Lays

/-- Every node finds the depth of the node it was reached from, since no node is visited twice. -/
theorem exists_lays (t : Tree) {depths : Array Nat} {d : Nat} (nodup : t.nodes.Nodup)
    (inside : ∀ i ∈ t.nodes, i < depths.size) (top : depths[t.top]? = some d) :
    ∃ nodes depths', Lays depths t.visitsBelow (t.levels d) nodes depths' ∧ nodes ⊆ t.under := by
  induction t generalizing depths d with
  | number i x => exact ⟨[], depths, .nil depths, List.nil_subset _⟩
  | var i key => exact ⟨[], depths, .nil depths, List.nil_subset _⟩
  | unary i op t ih =>
    obtain ⟨nodupBelow, -⟩ := Tree.nodup_unary nodup
    exact Lays.operand (fun j hj => inside j (by simp [hj])) top (ih nodupBelow)
  | binary i op s t ihs iht =>
    obtain ⟨nodupLeft, nodupRight, -, offLeft, -⟩ := Tree.nodup_binary nodup
    obtain ⟨ms, depths₁, left, withinLeft⟩ :=
      Lays.operand (fun j hj => inside j (by simp [hj])) top (ihs nodupLeft)
    have kept : depths₁[i]? = some d := (left.others i fun hi => offLeft (withinLeft hi)).trans top
    obtain ⟨ns, depths₂, right, withinRight⟩ := Lays.operand
      (fun j hj => left.size ▸ inside j (by simp [hj])) kept (iht nodupRight)
    refine ⟨ms ++ ns, depths₂, left.append right, List.append_subset.mpr ⟨?_, ?_⟩⟩
    · exact List.Subset.trans withinLeft (List.subset_append_left _ _)
    · exact List.Subset.trans withinRight (List.subset_append_right _ _)

/-- The connectors can be put into the drawing of a tree. -/
theorem glyphs?_eq (fits : t.Fits f.cells) (nodup : t.nodes.Nodup) :
    f.glyphs? t.top = some (sheet t.top (t.rows []) ++ [Glyph.newline]).toArray := by
  have deep : t.depth ≤ f.size := fits.depth_le
  have inside : ∀ i ∈ t.nodes, i < (Array.replicate f.size 0).size := by
    rw [Array.size_replicate]
    exact fits.lt
  have start : (Array.replicate f.size 0)[t.top]? = some 0 := by
    rw [Array.getElem?_replicate]
    exact if_pos fits.top_lt
  obtain ⟨nodes, depths, lays, -⟩ := exists_lays t nodup inside start
  have first : Draft.add ⟨Array.replicate f.size 0, #[]⟩ (t.top, none) =
      ⟨Array.replicate f.size 0, #[.node t.top, .newline]⟩ := by
    simp [Draft.add, start, draftLine]
  have opening : [Glyph.node t.top, .newline].foldlM Sketch.add {} = some (sketch t.top []) := rfl
  have rest := t.foldlM_levels t.top (.inl rfl : Ends 0 [])
  rw [glyphs?, visits, visitsOnto_eq fits deep, List.append_nil, List.foldl_cons, first,
    lays.foldl]
  simp only [Array.toList_appendList, List.foldlM_append, opening, Option.bind_eq_bind,
    Option.bind_some, rest]
  rfl

/-! ### The text of a line -/

/-- Down along slots from `i` to `j`, by way of the nodes listed, of which `j` is the last. -/
inductive Way (f : Forest) : Nat → List Nat → Nat → Prop where
  | here (i : Nat) : Way f i [] i
  | down {i a j : Nat} {rest : List Nat} (slot : a ∈ f.slots i) (onwards : Way f a rest j) :
      Way f i (a :: rest) j

/-- Another operand of `p` comes after `a`. -/
abbrev LaterSibling (f : Forest) (p a : Nat) : Prop := a ∈ (f.slots p).dropLast

/-- In front of a node stand a bar or a gap for every node on the way to it, and a tee or a corner
for the node itself. -/
def connectors (f : Forest) : Nat → List Nat → List Connector
  | _, [] => []
  | p, [a] => [if f.LaterSibling p a then .tee else .corner]
  | p, a :: b :: rest =>
    (if f.LaterSibling p a then .bar else .gap) :: f.connectors a (b :: rest)

/-- The line of the node `i` in the drawing of the tree below `r`. -/
def LineOf (f : Forest) (r i : Nat) (line : String) : Prop :=
  ∃ way c, f.Way r way i ∧ f.cells[i]? = some c ∧
    line = String.join ((f.connectors r way).map Connector.text) ++ "[" ++ toString i ++ "] " ++
      f.label c

/-- A node at depth `d` stands behind `d` connectors. -/
theorem length_connectors (f : Forest) (p : Nat) (way : List Nat) :
    (f.connectors p way).length = way.length := by
  fun_induction f.connectors p way with
  | case1 => rfl
  | case2 => rfl
  | case3 p a b rest ih => rw [List.length_cons, ih, List.length_cons, List.length_cons,
      List.length_cons]

def rowText (f : Forest) (r : Row) : String :=
  String.join (r.connectors.map Connector.text) ++ f.glyphText (.node r.node)

theorem rows_of_operand {stem : List Connector} {i : Nat} {c c' : Connector}
    (slot : t.top ∈ f.slots i)
    (last : (if f.LaterSibling i t.top then .tee else .corner) = c)
    (through : (if f.LaterSibling i t.top then .bar else .gap) = c')
    (below : ∀ r ∈ t.rows (stem ++ [c']), ∃ a rest, f.Way t.top (a :: rest) r.node ∧
      r.connectors = stem ++ [c'] ++ f.connectors t.top (a :: rest)) :
    ∀ r ∈ (⟨stem ++ [c], t.top⟩ :: t.rows (stem ++ [c']) : List Row),
      ∃ a rest, f.Way i (a :: rest) r.node ∧ r.connectors = stem ++ f.connectors i (a :: rest) := by
  rintro r (_ | ⟨_, inside⟩)
  · exact ⟨t.top, [], .down slot (.here _), by rw [connectors, last]⟩
  · obtain ⟨a, rest, way, eq⟩ := below r inside
    exact ⟨t.top, a :: rest, .down slot way, by rw [eq, connectors, through, List.append_assoc,
      List.singleton_append]⟩

/-- The connectors of a row say which nodes on the way to its node have a later sibling. -/
theorem exists_way (fits : t.Fits f.cells) (nodup : t.nodes.Nodup) (stem : List Connector) :
    ∀ r ∈ t.rows stem, ∃ a rest, f.Way t.top (a :: rest) r.node ∧
      r.connectors = stem ++ f.connectors t.top (a :: rest) := by
  induction t generalizing stem with
  | number i x => simp [Tree.rows]
  | var i key => simp [Tree.rows]
  | unary i op t ih =>
    have slots : f.slots i = [t.top] := slots_eq fits.1
    have only : ¬ f.LaterSibling i t.top := by simp [LaterSibling, slots]
    exact rows_of_operand (by simp [slots]) (if_neg only) (if_neg only)
      (ih fits.2 (Tree.nodup_unary nodup).1 (stem ++ [.gap]))
  | binary i op s t ihs iht =>
    have slots : f.slots i = [s.top, t.top] := slots_eq fits.1
    obtain ⟨nodupLeft, nodupRight, apart, -⟩ := Tree.nodup_binary nodup
    have ne : t.top ≠ s.top := fun same => apart _ s.top_mem_nodes (same ▸ t.top_mem_nodes)
    have first : f.LaterSibling i s.top := by simp [LaterSibling, slots]
    have last : ¬ f.LaterSibling i t.top := by simpa [LaterSibling, slots] using ne
    have left := rows_of_operand (by simp [slots]) (if_pos first) (if_pos first)
      (ihs fits.2.1 nodupLeft (stem ++ [.bar]))
    have right := rows_of_operand (by simp [slots]) (if_neg last) (if_neg last)
      (iht fits.2.2 nodupRight (stem ++ [.gap]))
    intro r hr
    rcases List.mem_append.mp hr with hr | hr
    · exact left r hr
    · exact right r hr

theorem walk_rows (fits : t.Fits f.cells) (stem : List Connector) :
    f.Walk t.top (t.top :: (t.rows stem).map Row.node) := by
  induction t generalizing stem with
  | number i x => exact .leaf fits.top_lt (slots_eq fits.cell)
  | var i key => exact .leaf fits.top_lt (slots_eq fits.cell)
  | unary i op t ih =>
    have below := Walk.unary (slots_eq fits.1) (ih fits.2 (stem ++ [.gap]))
    simpa [Tree.rows] using below
  | binary i op s t ihs iht =>
    have both := Walk.binary (slots_eq fits.1) (ihs fits.2.1 (stem ++ [.bar]))
      (iht fits.2.2 (stem ++ [.gap]))
    simpa [Tree.rows] using both

theorem lineOf_row {r : Row} {root : Nat} {way : List Nat} (lt : r.node < f.cells.size)
    (goes : f.Way root way r.node) (eq : r.connectors = f.connectors root way) :
    f.LineOf root r.node (f.rowText r) := by
  have cell : f.cells[r.node]? = some f.cells[r.node] := Array.getElem?_eq_getElem lt
  refine ⟨way, _, goes, cell, ?_⟩
  simp [rowText, glyphText, cell, eq, String.append_assoc]

theorem lineOf_drawn (fits : t.Fits f.cells) (nodup : t.nodes.Nodup) :
    ∀ r ∈ t.drawn, f.LineOf t.top r.node (f.rowText r) := by
  intro r hr
  have lt := fits.lt r.node (t.perm_drawn.mem_iff.mp (List.mem_map_of_mem hr))
  rcases List.mem_cons.mp hr with rfl | below
  · exact lineOf_row lt (.here _) rfl
  · obtain ⟨a, rest, way, eq⟩ := exists_way fits nodup [] r below
    exact lineOf_row lt way eq

theorem foldl_glyphText (f : Forest) (out : String) (gs : List Glyph) :
    gs.foldl (fun out g => out ++ f.glyphText g) out = out ++ String.join (gs.map f.glyphText) := by
  induction gs generalizing out with
  | nil => simp
  | cons g gs ih => rw [List.foldl_cons, ih, List.map_cons, String.join_cons, String.append_assoc]

theorem join_glyphs (f : Forest) (r : Row) :
    String.join (r.glyphs.map f.glyphText) = f.rowText r := by
  simp [Row.glyphs, rowText, glyphText, String.join_append, Function.comp_def]

/-- Every row is a line. -/
theorem join_rows (f : Forest) (r : Row) (rows : List Row) :
    String.join ((r.glyphs ++ lower rows ++ [Glyph.newline]).map f.glyphText) =
      String.join ((r :: rows).map ((· ++ "\n") ∘ f.rowText)) := by
  induction rows generalizing r with
  | nil => simp [String.join_append, join_glyphs, glyphText]
  | cons r' rows ih =>
    have rest := ih r'
    simp only [lower, List.flatMap_cons, List.map_append, List.map_cons, String.join_append,
      String.join_cons, join_glyphs, List.append_assoc, List.cons_append, Function.comp_apply,
      String.append_assoc] at rest ⊢
    rw [rest]
    rfl

theorem drawing?_eq (fits : t.Fits f.cells) (nodup : t.nodes.Nodup) (root : f.root = some t.top) :
    f.drawing? =
      some ("\n" ++ String.join ((t.drawn.map f.rowText).map (· ++ "\n")) ++ "\n") := by
  have text := f.join_rows ⟨[], t.top⟩ (t.rows [])
  rw [drawing?, root, List.map_map, Tree.drawn]
  simp only [glyphs?_eq fits nodup, Option.map_some, List.foldl_toArray, foldl_glyphText]
  rw [← text]
  rfl

end Forest

end Fluxion
