import Fluxion.Forest.Copy
import Fluxion.Infix.Reader
import Fluxion.Polish.Reader
import Fluxion.Polish.Writer

/-!
# Forests and text

A forest is made from either notation and written in prefix notation, as text or as the
bytes of a file.
-/

namespace Fluxion.Forest

def ofInfix (text : String) : Except Fault Forest := do ofTerm (← Infix.read text)

def ofPolish (text : String) : Except Fault Forest := do ofTerm (← Polish.read text)

/-- Builds the term with symbols in place of keys; every key must have one. -/
def naming (r : Registry) : Algebra (Except Fault) Key (Term Char) where
  number := fun x => .ok (.number x)
  var := fun key => match r.find? key with
    | some e => .ok (.var e.symbol)
    | none => .error (.unknownKey key)
  unary := fun op t => .ok (.unary op t)
  binary := fun op s t => .ok (.binary op s t)

/-- The live expression in prefix notation. -/
def polish (f : Forest) : Except Fault String :=
  match f.root with
  | none => .error .missingNode
  | some i => do return Polish.write (← (naming f.registry).run (f.program i))

def noSuchPlace : Fault := .io "No such file or directory (os error 2)"

/-- The contents of the file to which the live expression is saved; its place may not be
writable. -/
def save (f : Forest) (writable : Bool) : Except Fault ByteArray := do
  let text ← f.polish
  if writable then return text.toUTF8 else throw noSuchPlace

/-- Loads a file, which has no contents if it does not exist. -/
def load (contents? : Option ByteArray) : Except Fault Forest :=
  match contents? with
  | none => .error noSuchPlace
  | some bytes =>
    match String.fromUTF8? bytes with
    | some text => ofPolish text
    | none => .error (.io "stream did not contain valid UTF-8")

end Fluxion.Forest
