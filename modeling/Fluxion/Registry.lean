/-!
# The registry of symbols

Expressions refer to their variables by key. The registry lists the symbols met so far,
in the order of their first appearance, with the values assigned to them. The key of a
symbol is a 64-bit hash of its UTF-8 bytes, and two symbols may share it: then the one
that was registered first stands for both.
-/

namespace Fluxion

abbrev Key := UInt64

namespace Key

/-- Starts at 5381 and takes each byte `b` by `h * 33 + b`, modulo `2 ^ 64`. -/
def ofBytes (bytes : List UInt8) : Key :=
  bytes.foldl (fun h b => h * 33 + b.toUInt64) 5381

def ofSymbol (symbol : Char) : Key := ofBytes (String.utf8EncodeChar symbol)

def ofText (text : String) : Key := ofBytes text.toUTF8.data.toList

end Key

structure Entry where
  symbol : Char
  /-- Absent until a value is assigned. -/
  value : Option Float
deriving DecidableEq

def Entry.key (e : Entry) : Key := .ofSymbol e.symbol

structure Registry where
  entries : List Entry := []
deriving DecidableEq, Inhabited

namespace Registry

def find? (r : Registry) (key : Key) : Option Entry :=
  r.entries.find? fun e => e.key == key

def findSymbol? (r : Registry) (symbol : Char) : Option Entry :=
  r.find? (.ofSymbol symbol)

def symbols (r : Registry) : List Char := r.entries.map (·.symbol)

/-- Appends the symbol unless its key is already taken. -/
def register (r : Registry) (symbol : Char) : Registry :=
  match r.findSymbol? symbol with
  | some _ => r
  | none => ⟨r.entries ++ [⟨symbol, none⟩]⟩

/-- Assigns a value to the entry with the key of the symbol, if there is one. -/
def assign? (r : Registry) (symbol : Char) (value : Float) : Option Registry :=
  match r.findSymbol? symbol with
  | none => none
  | some _ => some ⟨r.entries.map fun e =>
      if e.key = .ofSymbol symbol then ⟨e.symbol, some value⟩ else e⟩

/-- Forgets all values and no symbol. -/
def clear (r : Registry) : Registry := ⟨r.entries.map fun e => ⟨e.symbol, none⟩⟩

end Registry

end Fluxion
