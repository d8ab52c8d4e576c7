import Fluxion.Proofs.Decimal.Numerals
import Fluxion.Proofs.Drawing.Lines
import Fluxion.Proofs.Forest.Surgery
import Fluxion.Proofs.Registry
import Fluxion.Proofs.Text.Division

/-!
# What a drawing tells

A line of a drawing is read from the left: the connectors up to the first bracket, the index up to
the next one, and the label, whose part before the parenthesis names the kind of the cell. So the
drawing of a live tree determines its nodes and their cells.
-/

namespace Fluxion

/-! ### Labels -/

namespace Operator

theorem ofName?_name (op : Operator) : ofName? op.name = some op := by
  rcases op with op | op <;> cases op <;> rfl

theorem all_isAlpha_name (op : Operator) : op.name.toList.all Char.isAlpha = true := by
  rcases op with op | op <;> cases op <;> rfl

end Operator

namespace Cell

/-- The same cell, but for numbers that are printed alike. -/
def Alike : Cell → Cell → Prop
  | number x, number y => decimalText x = decimalText y
  | c, d => c = d

/-- What a label says in front of the parenthesis. -/
def kind : Cell → String
  | number _ => "Number"
  | var _ => "Variable"
  | unary op _ => (Operator.unary op).name
  | binary op _ _ => (Operator.binary op).name

theorem all_isAlpha_kind (c : Cell) : c.kind.toList.all Char.isAlpha = true := by
  cases c with
  | number x =>
    rw [kind]
    rfl
  | var key =>
    rw [kind]
    rfl
  | unary op a => exact Operator.all_isAlpha_name (.unary op)
  | binary op a b => exact Operator.all_isAlpha_name (.binary op)

theorem notMem_kind (c : Cell) {a : Char} (h : a.isAlpha = false) : a ∉ c.kind.toList := by
  intro mem
  rw [List.all_eq_true.mp c.all_isAlpha_kind a mem] at h
  cases h

/-- The kind tells the operator, if there is one. -/
theorem ofName?_kind (c : Cell) : Operator.ofName? c.kind = c.operator? := by
  cases c with
  | number x =>
    change Operator.ofName? "Number" = none
    rfl
  | var key =>
    change Operator.ofName? "Variable" = none
    rfl
  | unary op a => exact Operator.ofName?_name (.unary op)
  | binary op a b => exact Operator.ofName?_name (.binary op)

end Cell

namespace Forest

open Drawing

variable {f g : Forest} {c d : Cell}

/-- What the label of a cell says in parentheses. -/
def inner (f : Forest) : Cell → String
  | .number x => decimalText x
  | .var key =>
    match f.registry.find? key with
    | some e => e.symbol.toString
    | none => "#" ++ toString key.toNat
  | .unary _ a => toString a
  | .binary _ a b => toString a ++ ", " ++ toString b

theorem label_eq (f : Forest) (c : Cell) : f.label c = c.kind ++ "(" ++ f.inner c ++ ")" := by
  cases c with
  | number x => rfl
  | var key =>
    simp only [label, inner]
    cases f.registry.find? key with
    | some e => rfl
    | none =>
      apply String.toList_inj.mp
      simp [Cell.text, Cell.kind]
  | unary op a => rfl
  | binary op a b => simp [label, Cell.text, Cell.kind, inner, Operator.name, String.append_assoc]

theorem toList_label (f : Forest) (c : Cell) :
    (f.label c).toList = c.kind.toList ++ '(' :: ((f.inner c).toList ++ [')']) := by
  simp [label_eq]

theorem notMem_inner (alphabetic : f.registry.Alphabetic) (c : Cell) :
    '\n' ∉ (f.inner c).toList := by
  have digits (n : Nat) : '\n' ∉ Nat.toDigits 10 n := notMem_toDigits rfl n
  have letter : isAlphabetic '\n' = false := by decide +kernel
  cases c with
  | number x =>
    intro mem
    have numeral := isNumeral_of_mem_decimalText mem
    simp [IsNumeral] at numeral
  | var key =>
    rw [inner]
    cases found : f.registry.find? key with
    | some e =>
      have other : '\n' ≠ e.symbol := by
        rintro same
        rw [same, alphabetic.of_find? found] at letter
        cases letter
      simpa using other
    | none => simpa using digits key.toNat
  | unary op a => simpa [inner] using digits a
  | binary op a b => simpa [inner] using ⟨digits a, digits b⟩

/-- Between the parentheses, a variable is told by its symbol or else by its key. -/
theorem key_of_inner {key key' : Key} (h : f.registry.Alphabetic) (h' : g.registry.Alphabetic)
    (same : f.inner (.var key) = g.inner (.var key')) : key = key' := by
  have mixed {r : Registry} {k : Key} {e : Entry} (alphabetic : r.Alphabetic)
      (found : r.find? k = some e) (n : Nat) : e.symbol.toString ≠ "#" ++ toString n := by
    intro same
    have first : e.symbol = '#' := by
      simpa using congrArg (fun s : String => s.toList.head?) same
    have letter : isAlphabetic '#' = true := first ▸ alphabetic.of_find? found
    exact absurd letter (by decide +kernel)
  simp only [inner] at same
  cases found : f.registry.find? key with
  | some e =>
    cases found' : g.registry.find? key' with
    | some e' =>
      have symbols : e.symbol = e'.symbol := by simpa [found, found'] using same
      rw [← Registry.key_of_find? found, ← Registry.key_of_find? found', Entry.key, Entry.key,
        symbols]
    | none =>
      simp only [found, found'] at same
      exact absurd same (mixed h found _)
  | none =>
    cases found' : g.registry.find? key' with
    | some e' =>
      simp only [found, found'] at same
      exact absurd same.symm (mixed h' found' _)
    | none =>
      have keys : key.toNat = key'.toNat := by simpa [found, found'] using same
      exact UInt64.toNat_inj.mp keys

theorem alike_of_label_eq (h : f.registry.Alphabetic) (h' : g.registry.Alphabetic)
    (same : f.label c = g.label d) : c.Alike d := by
  have texts := congrArg String.toList same
  rw [toList_label, toList_label] at texts
  obtain ⟨kinds, inners⟩ := eq_of_append_cons (c.notMem_kind rfl) (d.notMem_kind rfl) texts
  have kind := String.toList_inj.mp kinds
  have inner := String.toList_inj.mp (List.append_cancel_right inners)
  have operator : c.operator? = d.operator? := by
    rw [← c.ofName?_kind, kind, d.ofName?_kind]
  cases c with
  | number x =>
    cases d with
    | number y => exact inner
    | var key => exact absurd kind (by simp [Cell.kind])
    | unary op a => cases operator
    | binary op a b => cases operator
  | var key =>
    cases d with
    | number y => exact absurd kind (by simp [Cell.kind])
    | var key' => exact congrArg Cell.var (key_of_inner h h' inner)
    | unary op a => cases operator
    | binary op a b => cases operator
  | unary op a =>
    cases d with
    | number y => cases operator
    | var key' => cases operator
    | unary op' a' =>
      cases operator
      have operand : a = a' := by simpa [Forest.inner] using inner
      rw [operand]
      rfl
    | binary op' a' b' => cases operator
  | binary op a b =>
    cases d with
    | number y => cases operator
    | var key' => cases operator
    | unary op' a' => cases operator
    | binary op' a' b' =>
      cases operator
      have operands : Nat.toDigits 10 a ++ ',' :: ' ' :: Nat.toDigits 10 b =
          Nat.toDigits 10 a' ++ ',' :: ' ' :: Nat.toDigits 10 b' := by
        simpa [Forest.inner] using congrArg String.toList inner
      obtain ⟨left, rest⟩ := eq_of_append_cons (notMem_toDigits rfl a) (notMem_toDigits rfl a')
        operands
      rw [eq_of_toDigits left, eq_of_toDigits (List.cons.inj rest).2]
      rfl

/-! ### Lines -/

theorem notMem_connector {a : Char} (h : a ∈ ['\n', '[']) (c : Connector) :
    a ∉ c.text.toList := by
  have free : c.text.toList.all (fun b => b ∉ ['\n', '[']) = true := by cases c <;> rfl
  intro mem
  simpa [h] using List.all_eq_true.mp free a mem

theorem notMem_connectors {a : Char} (h : a ∈ ['\n', '[']) (cs : List Connector) :
    a ∉ cs.flatMap fun c => c.text.toList := by
  simpa using fun c _ => notMem_connector h c

theorem toList_rowText {r : Row} (cell : f.cells[r.node]? = some c) :
    (f.rowText r).toList = (r.connectors.flatMap fun c => c.text.toList) ++
      '[' :: (Nat.toDigits 10 r.node ++ ']' :: ' ' :: (f.label c).toList) := by
  simp [rowText, glyphText, cell, List.flatMap_map]

theorem notMem_rowText {r : Row} (alphabetic : f.registry.Alphabetic)
    (cell : f.cells[r.node]? = some c) : '\n' ∉ (f.rowText r).toList := by
  have connectors := notMem_connectors (a := '\n') (by simp) r.connectors
  have digits : '\n' ∉ Nat.toDigits 10 r.node := notMem_toDigits rfl r.node
  have kind := c.notMem_kind (a := '\n') rfl
  have inner := notMem_inner alphabetic c
  rw [toList_rowText cell, toList_label]
  simp only [List.mem_append, List.mem_cons, List.not_mem_nil, or_false, connectors, digits, kind,
    inner]
  decide

/-- A line tells its node and the label of the cell. -/
theorem node_of_rowText {r r' : Row} (cell : f.cells[r.node]? = some c)
    (cell' : g.cells[r'.node]? = some d) (same : f.rowText r = g.rowText r') :
    r.node = r'.node ∧ f.label c = g.label d := by
  have texts := congrArg String.toList same
  rw [toList_rowText cell, toList_rowText cell'] at texts
  obtain ⟨-, rest⟩ := eq_of_append_cons (notMem_connectors (by simp) r.connectors)
    (notMem_connectors (by simp) r'.connectors) texts
  obtain ⟨index, label⟩ := eq_of_append_cons (notMem_toDigits rfl r.node)
    (notMem_toDigits rfl r'.node) rest
  exact ⟨eq_of_toDigits index, String.toList_inj.mp (List.cons.inj label).2⟩

/-! ### Drawings -/

variable {t u : Tree}

theorem exists_cell {i : Nat} (fits : t.Fits f.cells) (hi : i ∈ t.nodes) :
    ∃ c, f.cells[i]? = some c :=
  ⟨_, Array.getElem?_eq_getElem (fits.lt i hi)⟩

theorem node_of_drawn {r : Row} (hr : r ∈ t.drawn) : r.node ∈ t.nodes :=
  t.perm_drawn.mem_iff.mp (List.mem_map_of_mem hr)

theorem notMem_drawn (alphabetic : f.registry.Alphabetic) (fits : t.Fits f.cells) :
    ∀ line ∈ t.drawn.map f.rowText, '\n' ∉ line.toList := by
  intro line hl
  obtain ⟨r, hr, rfl⟩ := List.mem_map.mp hl
  obtain ⟨c, cell⟩ := exists_cell fits (node_of_drawn hr)
  exact notMem_rowText alphabetic cell

/-- The lines of a drawing can be told apart. -/
theorem eq_of_joined {ls ms : List String} (left : ∀ l ∈ ls, '\n' ∉ l.toList)
    (right : ∀ m ∈ ms, '\n' ∉ m.toList)
    (same : "\n" ++ String.join (ls.map (· ++ "\n")) ++ "\n" =
      "\n" ++ String.join (ms.map (· ++ "\n")) ++ "\n") : ls = ms := by
  have texts : (ls.map String.toList).flatMap (· ++ ['\n']) =
      (ms.map String.toList).flatMap (· ++ ['\n']) := by
    simpa [List.flatMap_map] using congrArg String.toList same
  refine List.map_injective_iff.mpr (fun _ _ => String.toList_inj.mp) ?_
  exact eq_of_flatMap_lines (by simpa using left) (by simpa using right) texts

/-- The nodes and their cells can be read off the lines. -/
theorem exists_alike (h : f.registry.Alphabetic) (h' : g.registry.Alphabetic)
    (fits : t.Fits f.cells) (fits' : u.Fits g.cells)
    (same : t.drawn.map f.rowText = u.drawn.map g.rowText) {i : Nat} (hi : i ∈ t.nodes) :
    i ∈ u.nodes ∧ ∃ c d, f.cells[i]? = some c ∧ g.cells[i]? = some d ∧ c.Alike d := by
  obtain ⟨r, hr, rfl⟩ := List.mem_map.mp (t.perm_drawn.mem_iff.mpr hi)
  obtain ⟨r', hr', text⟩ := List.mem_map.mp (same ▸ List.mem_map_of_mem hr)
  obtain ⟨c, cell⟩ := exists_cell fits hi
  obtain ⟨d, cell'⟩ := exists_cell fits' (node_of_drawn hr')
  obtain ⟨node, label⟩ := node_of_rowText cell cell' text.symm
  exact ⟨node ▸ node_of_drawn hr', c, d, cell, node ▸ cell', alike_of_label_eq h h' label⟩

/-- The drawing of a live tree has one line for each live node, in preorder and with the connectors
of its place, and two such drawings are the same only if the nodes and their cells are. -/
theorem drawing_faithful (f : Forest) (shaped : f.TreeShaped) (r : Nat) (root : f.root = some r)
    (alphabetic : f.registry.Alphabetic) :
    (∃ (ns : List Nat) (lines : List String), f.Walk r ns ∧ ns.Nodup ∧ (∀ i, f.Live i ↔ i ∈ ns) ∧
      List.Forall₂ (f.LineOf r) ns lines ∧ (∀ line ∈ lines, '\n' ∉ line.toList) ∧
      f.drawing? = some ("\n" ++ String.join (lines.map (· ++ "\n")) ++ "\n")) ∧
    ∀ g : Forest, g.TreeShaped → (∃ i, g.root = some i) → g.registry.Alphabetic →
      g.drawing? = f.drawing? →
        g.root = f.root ∧ (∀ i, g.Live i ↔ f.Live i) ∧
          ∀ i, f.Live i → ∃ c d, f.cells[i]? = some c ∧ g.cells[i]? = some d ∧ c.Alike d := by
  obtain ⟨t, held⟩ := shaped.exists_holds_some ⟨r, root⟩
  have fits := held.fits_live
  have nodup := held.stands.nodup_head
  cases root.symm.trans held.root
  constructor
  · refine ⟨t.drawn.map Row.node, t.drawn.map f.rowText, walk_rows fits [],
      t.perm_drawn.nodup_iff.mpr nodup, fun i => held.live_iff.trans t.perm_drawn.mem_iff.symm, ?_,
      ?_, ?_⟩
    · rw [List.forall₂_map_left_iff, List.forall₂_map_right_iff, List.forall₂_same]
      exact lineOf_drawn fits nodup
    · exact notMem_drawn alphabetic fits
    · exact drawing?_eq fits nodup held.root
  · intro g shaped' root' alphabetic' same
    obtain ⟨u, held'⟩ := shaped'.exists_holds_some root'
    have fits' := held'.fits_live
    have texts : t.drawn.map f.rowText = u.drawn.map g.rowText := by
      rw [drawing?_eq fits nodup held.root,
        drawing?_eq fits' held'.stands.nodup_head held'.root] at same
      exact eq_of_joined (notMem_drawn alphabetic fits) (notMem_drawn alphabetic' fits')
        (Option.some.inj same.symm)
    have top : t.top = u.top := by
      obtain ⟨c, cell⟩ := exists_cell fits t.top_mem_nodes
      obtain ⟨d, cell'⟩ := exists_cell fits' u.top_mem_nodes
      have first : f.rowText ⟨[], t.top⟩ = g.rowText ⟨[], u.top⟩ := (List.cons.inj texts).1
      exact (node_of_rowText cell cell' first).1
    refine ⟨?_, fun i => ?_, fun i live => ?_⟩
    · rw [held'.root, held.root, Option.map_some, Option.map_some, top]
    · rw [held'.live_iff, held.live_iff]
      exact ⟨fun hi => (exists_alike alphabetic' alphabetic fits' fits texts.symm hi).1,
        fun hi => (exists_alike alphabetic alphabetic' fits fits' texts hi).1⟩
    · exact (exists_alike alphabetic alphabetic' fits fits' texts (held.live_iff.mp live)).2

/-- The forest of `sin(x + 1) * 2`. -/
def productWithSine : Forest where
  cells := #[.var (.ofSymbol 'x'), .number 1, .binary .add 0 1, .unary .sin 2, .number 2,
    .binary .mul 3 4]
  parents := #[some 2, some 2, some 3, some 5, some 5, none]
  root := some 5
  registry := ⟨[⟨'x', none⟩]⟩

example : productWithSine.drawing? = some "
[5] Mul(3, 4)
 ├── [3] Sin(2)
 │    └── [2] Add(0, 1)
 │         ├── [0] Variable(x)
 │         └── [1] Number(1)
 └── [4] Number(2)

" := by decide +kernel

/-- The same with a retired cosine beside it, and one more symbol. -/
def litteredProduct : Forest where
  cells := productWithSine.cells.push (.unary .cos 0)
  parents := productWithSine.parents.push none
  root := some 5
  retired := #[6]
  registry := ⟨[⟨'x', some 1⟩, ⟨'y', none⟩]⟩

def productTree : Tree :=
  .binary 5 .mul (.unary 3 .sin (.binary 2 .add (.var 0 (.ofSymbol 'x')) (.number 1 1)))
    (.number 4 2)

theorem productWithSine_holds :
    productWithSine.Holds ⟨productWithSine.registry, 0⟩ (some productTree) [] := by
  refine holds_of_tree rfl rfl ?_ ?_ rfl (by decide) (by decide)
  · exact ⟨rfl, ⟨rfl, rfl, rfl, rfl⟩, rfl⟩
  · exact ⟨rfl, rfl, ⟨rfl, rfl, rfl, trivial, trivial⟩, trivial⟩

theorem litteredProduct_holds :
    litteredProduct.Holds ⟨litteredProduct.registry, 1⟩ (some productTree) [] := by
  refine holds_of_tree rfl rfl ?_ ?_ rfl (by decide) (by decide)
  · exact ⟨rfl, ⟨rfl, rfl, rfl, rfl⟩, rfl⟩
  · exact ⟨rfl, rfl, ⟨rfl, rfl, rfl, trivial, trivial⟩, trivial⟩

/-- What is not live is not drawn. -/
theorem drawing_faithful_productWithSine :
    productWithSine.TreeShaped ∧ productWithSine.registry.Alphabetic ∧
      litteredProduct.TreeShaped ∧ litteredProduct.registry.Alphabetic ∧
      (∃ ns lines, productWithSine.Walk 5 ns ∧
        List.Forall₂ (productWithSine.LineOf 5) ns lines ∧ productWithSine.drawing? =
          some ("\n" ++ String.join (lines.map (· ++ "\n")) ++ "\n")) ∧
      litteredProduct.drawing? = productWithSine.drawing? ∧
      litteredProduct.root = productWithSine.root ∧
      ∀ i, litteredProduct.Live i ↔ productWithSine.Live i := by
  have shaped := productWithSine_holds.treeShaped
  have shaped' := litteredProduct_holds.treeShaped
  have alphabetic : productWithSine.registry.Alphabetic :=
    .of_isAlpha (by simp [Registry.symbols, productWithSine])
  have alphabetic' : litteredProduct.registry.Alphabetic :=
    .of_isAlpha (by simp [Registry.symbols, litteredProduct])
  have same : litteredProduct.drawing? = productWithSine.drawing? := by decide +kernel
  obtain ⟨⟨ns, lines, walk, -, -, each, -, text⟩, told⟩ :=
    drawing_faithful productWithSine shaped 5 rfl alphabetic
  obtain ⟨root, live, -⟩ := told litteredProduct shaped' ⟨5, rfl⟩ alphabetic' same
  exact ⟨shaped, alphabetic, shaped', alphabetic', ⟨ns, lines, walk, each, text⟩, same, root, live⟩

end Forest

end Fluxion
