import Fluxion.Decimal.Shortest

/-!
# Layout of decimal text

The digits of a number are chosen by `Magnitude.shortest`; a `Layout` decides how they
are written. Two layouts are in use: `Layout.plain`, which never writes an exponent and
serves nodes, notations and messages, and `Layout.structural`, which marks a number as
such and serves the structural display of faults.
-/

namespace Fluxion

structure Layout where
  /-- Whether a number whose leading digit stands at this power of ten is written
  without an exponent. -/
  positional : Int → Bool
  /-- Whether an integral number without exponent ends in `.0`. -/
  pointZero : Bool

namespace Layout

def plain : Layout := ⟨fun _ => true, false⟩

/-- Without exponent from `0.0001` up to below `10 ^ 16`. -/
def structural : Layout := ⟨fun lead => decide (-4 ≤ lead) && decide (lead < 16), true⟩

/-- Digits `cs` with the point `shift` places to the right of the last one. -/
def point (layout : Layout) (cs : List Char) (shift : Int) : List Char :=
  if 0 ≤ shift then
    cs ++ List.replicate shift.toNat '0' ++ (if layout.pointZero then ['.', '0'] else [])
  else
    let places := (-shift).toNat
    if places < cs.length then
      cs.take (cs.length - places) ++ '.' :: cs.drop (cs.length - places)
    else
      '0' :: '.' :: List.replicate (places - cs.length) '0' ++ cs

/-- Digits `cs` with the point after the first one and the exponent `lead`. -/
def scientific (cs : List Char) (lead : Int) : List Char :=
  let sign := if lead < 0 then ['-'] else []
  cs.take 1 ++ (if cs.length > 1 then '.' :: cs.drop 1 else []) ++
    'e' :: sign ++ Nat.toDigits 10 lead.natAbs

/-- A number that is not zero. -/
def digits (layout : Layout) (d : Decimal) : List Char :=
  let cs := Nat.toDigits 10 d.digits
  let lead := d.exponent + cs.length - 1
  if layout.positional lead then layout.point cs d.exponent else scientific cs lead

def magnitude (layout : Layout) (x : Magnitude) : List Char :=
  if x.mantissa = 0 then layout.point ['0'] 0 else layout.digits x.shortest

/-- The sign is that of the bits, so negative zero keeps it; a number that is none has
no sign. -/
def write (layout : Layout) (x : Float) : String :=
  if x.isNaN then "NaN"
  else
    let sign := if x.toBits >>> 63 = 1 then ['-'] else []
    let body := if x.isInf then ['i', 'n', 'f'] else layout.magnitude (.ofBits x.toBits)
    String.ofList (sign ++ body)

example : [1e16, 1e-5, -0.0].map plain.write = ["10000000000000000", "0.00001", "-0"] := by
  decide +kernel

example : [1e16, 1e-5, 0.5, 2, -0.0].map structural.write
    = ["1e16", "1e-5", "0.5", "2.0", "-0.0"] := by
  decide +kernel

end Layout

/-- The text of a number in nodes, notations and messages. -/
def decimalText (x : Float) : String := Layout.plain.write x

end Fluxion
