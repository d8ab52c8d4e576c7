import Fluxion.Drawing
import Fluxion.Proofs.Forest.Tree
import Mathlib.Data.List.Induction

/-!
# Where the connectors run on

The second pass takes over the draft line by line. At the corner of a node it looks upwards along
one column. The lines it finds there are those of the earlier sibling, which hold a corner or a gap
in that column; above them stands the parent, whose own glyph ends the search, unless the parent is
the root, whose line no newline precedes. So what the pass makes of the lines below a node does not
depend on what comes after them, except for the columns of the node and its ancestors.
-/

namespace Fluxion

namespace Drawing

structure Row where
  connectors : List Connector
  node : Nat

namespace Row

def glyphs (r : Row) : List Glyph := r.connectors.map .connector ++ [.node r.node]

/-- The row when a later sibling has been found below the connector in the column. -/
def onward (column : Nat) (r : Row) : Row :=
  { r with connectors := r.connectors.modify column fun c => c.onward?.getD c }

/-- No later sibling has been found yet below the connector in the column. -/
def Open (column : Nat) (r : Row) : Prop :=
  ∃ before c c' after, r.connectors = before ++ c :: after ∧ before.length = column ∧
    c.onward? = some c'

end Row

/-- The rows below the root, each after the newline that ends the one above. -/
def lower (rows : List Row) : List Glyph := rows.flatMap fun r => .newline :: r.glyphs

/-- The root and the rows below it. -/
def sheet (root : Nat) (rows : List Row) : List Glyph := .node root :: lower rows

/-- Between two lines. -/
def sketch (root : Nat) (rows : List Row) : Sketch :=
  ⟨(sheet root rows ++ [Glyph.newline]).toArray, (sheet root rows).length⟩

/-- A node at the depth may come next to the last row, which is that of its parent, or else the
parent is the root. -/
def Ends (depth : Nat) (rows : List Row) : Prop :=
  rows = [] ∨ ∃ above r, rows = above ++ [r] ∧ r.connectors.length = depth

variable {gs : List Glyph} {rows block : List Row} {r : Row} {column : Nat}

@[simp] theorem lower_nil : lower [] = [] := rfl

@[simp] theorem lower_append (rows rows' : List Row) :
    lower (rows ++ rows') = lower rows ++ lower rows' := by
  simp [lower]

@[simp] theorem lower_singleton (r : Row) : lower [r] = .newline :: r.glyphs := by
  simp [lower]

theorem modify_append (change : Connector → Connector) (before after : List Connector)
    (c : Connector) :
    (before ++ c :: after).modify before.length change = before ++ change c :: after := by
  induction before with
  | nil => rfl
  | cons b before ih => simp [ih]

/-! ### The search upwards -/

theorem runOn_of_free (offset : Nat) (above below : List Glyph) (free : ∀ g ∈ gs, g ≠ .newline) :
    runOn offset (above.length + gs.length) (above ++ (gs ++ below)).toArray =
      runOn offset above.length (above ++ (gs ++ below)).toArray := by
  induction gs using List.reverseRecOn generalizing below with
  | nil => simp
  | append_singleton gs g ih =>
    have rest := ih (g :: below) fun g' hg' => free g' (by simp [hg'])
    have here : (above ++ (gs ++ g :: below)).toArray[above.length + gs.length]? = some g := by
      simp
    have other : ¬ some g = some .newline := by
      simpa using free g (by simp)
    rw [List.append_assoc, List.singleton_append, List.length_append, List.length_singleton,
      ← Nat.add_assoc, runOn, here, if_neg other]
    exact rest

theorem Row.free (r : Row) {g : Glyph} (hg : g ∈ r.glyphs) : g ≠ .newline := by
  rintro rfl
  simp [Row.glyphs] at hg

theorem runOn_row (column : Nat) (above below : List Glyph) (r : Row) :
    runOn (column + 1) (above.length + (1 + r.glyphs.length))
        (above ++ (.newline :: r.glyphs ++ below)).toArray =
      runOn (column + 1) (above.length + 1) (above ++ (.newline :: r.glyphs ++ below)).toArray := by
  have within := runOn_of_free (column + 1) (above ++ [.newline]) below fun g => r.free
  simpa [Nat.add_assoc] using within

/-- A row that the search can run through. -/
theorem runOn_open (above below : List Glyph) (hanging : r.Open column) :
    runOn (column + 1) (above.length + (1 + r.glyphs.length))
        (above ++ (.newline :: r.glyphs ++ below)).toArray =
      runOn (column + 1) above.length
        (above ++ (.newline :: (r.onward column).glyphs ++ below)).toArray := by
  obtain ⟨before, c, c', after, parts, rfl, next⟩ := hanging
  have split (c : Connector) :
      above ++ (.newline :: Row.glyphs ⟨before ++ c :: after, r.node⟩ ++ below) =
        (above ++ .newline :: before.map .connector) ++
          .connector c :: (after.map .connector ++ .node r.node :: below) := by
    simp [Row.glyphs]
  obtain ⟨connectors, node⟩ := r
  subst parts
  rw [runOn_row, runOn, Row.onward, modify_append, next, Option.getD_some, split c, split c']
  simp [next]

/-- At the row of the parent, the search ends. -/
theorem runOn_parent (above below : List Glyph) (depth : r.connectors.length = column) :
    runOn (column + 1) (above.length + (1 + r.glyphs.length))
        (above ++ (.newline :: r.glyphs ++ below)).toArray =
      some (above ++ (.newline :: r.glyphs ++ below)).toArray := by
  rw [runOn_row, runOn]
  simp [Row.glyphs, ← depth]

/-- Rows of an earlier sibling that the search runs through. -/
theorem runOn_block (above below : List Glyph) (hanging : ∀ r ∈ block, r.Open column) :
    runOn (column + 1) (above.length + (lower block).length)
        (above ++ (lower block ++ below)).toArray =
      runOn (column + 1) above.length
        (above ++ (lower (block.map (Row.onward column)) ++ below)).toArray := by
  induction block using List.reverseRecOn generalizing below with
  | nil => simp
  | append_singleton block r ih =>
    have last := runOn_open (above ++ lower block) below (hanging r (by simp))
    have others := ih (.newline :: (r.onward column).glyphs ++ below)
      fun r' hr' => hanging r' (by simp [hr'])
    simp only [lower_append, lower_singleton, List.length_append, List.length_cons, List.map_append,
      List.map_cons, List.map_nil, List.append_assoc, List.cons_append] at last others ⊢
    rw [← others, ← last]
    congr 1
    omega

/-- The search ends in front of the first row of the earlier sibling. -/
theorem runOn_ends (root : Nat) (below : List Glyph) (ends : Ends column rows) :
    runOn (column + 1) (sheet root rows).length (sheet root rows ++ below).toArray =
      some (sheet root rows ++ below).toArray := by
  rcases ends with rfl | ⟨above, r, rfl, depth⟩
  · simp [sheet, runOn]
  · have parent := runOn_parent (sheet root above) below depth
    simp only [sheet, lower_append, lower_singleton, List.length_append, List.length_cons,
      List.append_assoc, List.cons_append] at parent ⊢
    rw [← parent]
    congr 1
    omega

theorem runOn_sibling (root : Nat) (below : List Glyph) (ends : Ends column rows)
    (hanging : ∀ r ∈ block, r.Open column) :
    runOn (column + 1) (sheet root (rows ++ block)).length
        (sheet root (rows ++ block) ++ below).toArray =
      some (sheet root (rows ++ block.map (Row.onward column)) ++ below).toArray := by
  have parts (block : List Row) : sheet root (rows ++ block) = sheet root rows ++ lower block := by
    simp [sheet]
  rw [parts, parts, List.length_append, List.append_assoc, List.append_assoc,
    runOn_block _ _ hanging, runOn_ends _ _ ends]

theorem foldlM_gaps (n : Nat) (s : Sketch) :
    (List.replicate n (Glyph.connector .gap)).foldlM Sketch.add s =
      some { s with glyphs := s.glyphs ++ List.replicate n (Glyph.connector .gap) } := by
  induction n generalizing s with
  | zero => simp
  | succ n ih =>
    rw [List.replicate_succ, List.foldlM_cons]
    simp [Sketch.add, ih]

/-- The line of a node, below the last row of its earlier sibling if there is one. -/
theorem foldlM_draftLine (root i : Nat) (block : List Row) (ends : Ends column rows)
    (hanging : ∀ r ∈ block, r.Open column) :
    (draftLine (column + 1) i).foldlM Sketch.add (sketch root (rows ++ block)) =
      some (sketch root (rows ++ block.map (Row.onward column) ++
        [⟨List.replicate column .gap ++ [.corner], i⟩])) := by
  have search :=
    runOn_sibling root (.newline :: List.replicate column (.connector .gap)) ends hanging
  simp only [draftLine, List.foldlM_append, foldlM_gaps, sketch, Option.bind_eq_bind,
    Option.bind_some, List.foldlM_cons, List.foldlM_nil, Sketch.add]
  simp [search]
  simp [sheet, Row.glyphs]
  omega

end Drawing

namespace Tree

open Drawing

/-- The nodes below the top in preorder, each with its depth; that of the top is given. -/
def levels (depth : Nat) : Tree → List (Nat × Nat)
  | number .. | var .. => []
  | unary _ _ t => (depth + 1, t.top) :: t.levels (depth + 1)
  | binary _ _ s t =>
    (depth + 1, s.top) :: s.levels (depth + 1) ++ (depth + 1, t.top) :: t.levels (depth + 1)

/-- The rows of the nodes below the top. In front of each stands the stem. -/
def rows (stem : List Connector) : Tree → List Row
  | number .. | var .. => []
  | unary _ _ t => ⟨stem ++ [.corner], t.top⟩ :: t.rows (stem ++ [.gap])
  | binary _ _ s t =>
    ⟨stem ++ [.tee], s.top⟩ :: s.rows (stem ++ [.bar]) ++
      ⟨stem ++ [.corner], t.top⟩ :: t.rows (stem ++ [.gap])

variable {before : List Connector} {c c' : Connector} {rows : List Row}

theorem open_rows (next : c.onward? = some c') (after : List Connector) (t : Tree) :
    ∀ r ∈ t.rows (before ++ c :: after), r.Open before.length := by
  have opens (after' : List Connector) (i : Nat) :
      Row.Open before.length ⟨before ++ c :: after', i⟩ := ⟨before, c, c', after', rfl, rfl, next⟩
  induction t generalizing after with
  | number i x => simp [Tree.rows]
  | var i key => simp [Tree.rows]
  | unary i op t ih =>
    have below := ih (after ++ [.gap])
    simpa [Tree.rows, opens] using below
  | binary i op s t ihs iht =>
    have left := ihs (after ++ [.bar])
    have right := iht (after ++ [.gap])
    simp only [Tree.rows, List.append_assoc, List.cons_append, List.mem_cons, List.mem_append]
    rintro r (rfl | h | rfl | h)
    · exact opens _ _
    · exact left r h
    · exact opens _ _
    · exact right r h

theorem map_onward_rows (before after : List Connector) (c : Connector) (t : Tree) :
    (t.rows (before ++ c :: after)).map (Row.onward before.length) =
      t.rows (before ++ c.onward?.getD c :: after) := by
  induction t generalizing after with
  | number i x => rfl
  | var i key => rfl
  | unary i op t ih =>
    have below := ih (after ++ [.gap])
    simpa [Tree.rows, Row.onward, modify_append] using below
  | binary i op s t ihs iht =>
    have left := ihs (after ++ [.bar])
    have right := iht (after ++ [.gap])
    simp [Tree.rows, Row.onward, modify_append, left, right]

/-- The rows of a first operand, while no later sibling has been found. -/
theorem open_operand (stem : List Connector) (t : Tree) :
    ∀ r ∈ (⟨stem ++ [.corner], t.top⟩ :: t.rows (stem ++ [.gap]) : List Row),
      r.Open stem.length := by
  rintro r (_ | ⟨_, below⟩)
  · exact ⟨stem, .corner, .tee, [], rfl, rfl, rfl⟩
  · exact t.open_rows rfl [] r below

theorem map_onward_operand (stem : List Connector) (t : Tree) :
    (⟨stem ++ [.corner], t.top⟩ :: t.rows (stem ++ [.gap]) : List Row).map
        (Row.onward stem.length) =
      ⟨stem ++ [.tee], t.top⟩ :: t.rows (stem ++ [.bar]) := by
  rw [List.map_cons, t.map_onward_rows, Row.onward, modify_append]
  rfl

theorem ends_next (rows : List Row) (depth i : Nat) :
    Ends (depth + 1) (rows ++ [⟨List.replicate depth .gap ++ [.corner], i⟩]) :=
  .inr ⟨rows, _, rfl, by simp⟩

/-- The lines below a node get their connectors when all that is above them is the line of the node
itself and the lines above that. -/
theorem foldlM_levels (t : Tree) (root : Nat) {depth : Nat} (ends : Ends depth rows) :
    ((t.levels depth).flatMap fun (d, i) => draftLine d i).foldlM Sketch.add (sketch root rows) =
      some (sketch root (rows ++ t.rows (List.replicate depth .gap))) := by
  induction t generalizing rows depth with
  | number i x => simp [levels, Tree.rows]
  | var i key => simp [levels, Tree.rows]
  | unary i op t ih =>
    have own := foldlM_draftLine root t.top [] ends (by simp)
    have below := ih (ends_next rows depth t.top)
    simp only [List.append_nil, List.map_nil] at own
    rw [levels, List.flatMap_cons, List.foldlM_append, own, Option.bind_eq_bind, Option.bind_some,
      below, Tree.rows, List.replicate_succ', List.append_assoc, List.singleton_append]
  | binary i op s t ihs iht =>
    have length : (List.replicate depth Connector.gap).length = depth := List.length_replicate
    have opens := open_operand (List.replicate depth .gap) s
    have onward := map_onward_operand (List.replicate depth .gap) s
    rw [length] at opens onward
    have first := foldlM_draftLine root s.top [] ends (by simp)
    have left := ihs (ends_next rows depth s.top)
    have second := foldlM_draftLine root t.top _ ends opens
    have right := iht (ends_next (rows ++ (⟨List.replicate depth .gap ++ [.tee], s.top⟩ ::
        s.rows (List.replicate depth .gap ++ [.bar]))) depth t.top)
    rw [onward] at second
    simp only [List.append_nil, List.map_nil] at first
    rw [List.replicate_succ', List.append_assoc, List.singleton_append] at left
    rw [levels, List.cons_append, List.flatMap_cons, List.flatMap_append, List.flatMap_cons,
      List.foldlM_append, first, Option.bind_eq_bind, Option.bind_some, List.foldlM_append, left,
      Option.bind_eq_bind, Option.bind_some, List.foldlM_append, second, Option.bind_eq_bind,
      Option.bind_some, right, Tree.rows, List.replicate_succ', List.append_assoc,
      List.append_assoc, List.singleton_append]

end Tree

end Fluxion
