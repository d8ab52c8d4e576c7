import Fluxion.Forest.Order

/-!
# Drawings

A drawing of the live expression has a line for each node, in preorder, with the index of
the node and its cell. In front of a node at depth `d` stand `d` connectors: one for each
ancestor below the root, a bar if that ancestor has a later sibling, and one for the node
itself, a tee if it has a later sibling and a corner otherwise.

The lines are drafted without regard to siblings, as if every node were the last one. A second
pass goes through the draft and looks upwards from every corner, along its column: down from the
earlier sibling, corners and gaps become tees and bars.
-/

namespace Fluxion

inductive Connector where
  | tee
  | bar
  | corner
  | gap
deriving DecidableEq

def Connector.text : Connector → String
  | tee => " ├── "
  | bar => " │   "
  | corner => " └── "
  | gap => "     "

/-- The connector above a later sibling, unless it is known to be above one already. -/
def Connector.onward? : Connector → Option Connector
  | corner => some tee
  | gap => some bar
  | tee | bar => none

namespace Drawing

inductive Glyph where
  | connector (c : Connector)
  | node (i : Nat)
  | newline
deriving DecidableEq

/-! ### The draft -/

/-- The line of a node at the given depth, as if it and its ancestors were last siblings. -/
def draftLine (depth i : Nat) : List Glyph :=
  match depth with
  | 0 => [.node i, .newline]
  | d + 1 =>
    List.replicate d (.connector .gap) ++ [.connector .corner, .node i, .newline]

structure Draft where
  /-- For every cell, its depth, once it has been visited. -/
  depths : Array Nat
  glyphs : Array Glyph
deriving DecidableEq

/-- Adds the line of a node that was reached from `above`. -/
def Draft.add (d : Draft) : Nat × Option Nat → Draft
  | (i, above) =>
    let depths := match above with
      | some p => d.depths.setIfInBounds i (d.depths[p]?.getD 0 + 1)
      | none => d.depths
    ⟨depths, d.glyphs ++ draftLine (depths[i]?.getD 0) i⟩

/-! ### The connectors -/

structure Sketch where
  glyphs : Array Glyph := #[]
  /-- Where the last newline stands. -/
  start : Nat := 0
deriving DecidableEq

/-- In the lines after the newlines before `bound`, from the last one upwards, makes the glyph
`offset` after the newline run on, until one does not. Fails at the end of a line. -/
def runOn (offset : Nat) : Nat → Array Glyph → Option (Array Glyph)
  | 0, glyphs => some glyphs
  | bound + 1, glyphs =>
    if glyphs[bound]? = some .newline then
      match glyphs[bound + offset]? with
      | some (.connector c) =>
        match c.onward? with
        | some c => runOn offset bound (glyphs.setIfInBounds (bound + offset) (.connector c))
        | none => some glyphs
      | some (.node _) => some glyphs
      | some .newline | none => none
    else runOn offset bound glyphs

/-- Takes over one glyph of the draft. -/
def Sketch.add (s : Sketch) (g : Glyph) : Option Sketch :=
  match g with
  | .newline => some ⟨s.glyphs.push g, s.glyphs.size⟩
  | .connector .corner =>
    (runOn (s.glyphs.size - s.start) s.start s.glyphs).map fun glyphs =>
      { s with glyphs := glyphs.push g }
  | _ => some { s with glyphs := s.glyphs.push g }

end Drawing

namespace Forest

open Drawing

/-- Node, left operand, right operand, each with the node it was reached from; followed by
`rest`. -/
def visitsOnto (cells : Array Cell) :
    Nat → Option Nat → Nat → List (Nat × Option Nat) → List (Nat × Option Nat)
  | 0, _, _, rest => rest
  | depth + 1, above, i, rest =>
    match cells[i]? with
    | none => rest
    | some (.unary _ a) => (i, above) :: visitsOnto cells depth (some i) a rest
    | some (.binary _ a b) =>
      (i, above) :: visitsOnto cells depth (some i) a (visitsOnto cells depth (some i) b rest)
    | some _ => (i, above) :: rest

/-- The nodes in preorder, each with the node it was reached from. -/
def visits (f : Forest) (i : Nat) : List (Nat × Option Nat) :=
  visitsOnto f.cells f.size none i []

/-- The glyphs of the lines of the nodes below `i`. -/
def glyphs? (f : Forest) (i : Nat) : Option (Array Glyph) :=
  let draft := (f.visits i).foldl Draft.add ⟨Array.replicate f.size 0, #[]⟩
  (draft.glyphs.toList.foldlM Sketch.add {}).map Sketch.glyphs

/-- The cell, a variable by its symbol if it has one. -/
def label (f : Forest) (c : Cell) : String :=
  match c with
  | .var key =>
    match f.registry.find? key with
    | some e => "Variable(" ++ e.symbol.toString ++ ")"
    | none => c.text
  | _ => c.text

def glyphText (f : Forest) : Glyph → String
  | .connector c => c.text
  | .node i => "[" ++ toString i ++ "] " ++ ((f.cells[i]?.map f.label).getD "")
  | .newline => "\n"

/-- The drawing, if the connectors can be put into it. -/
def drawing? (f : Forest) : Option String :=
  match f.root with
  | none => some "(empty)\n"
  | some i => (f.glyphs? i).map fun glyphs =>
    glyphs.foldl (fun out m => out ++ f.glyphText m) "\n" ++ "\n"

def drawing (f : Forest) : String := f.drawing?.getD ""

end Forest

end Fluxion
