import Fluxion.Decimal.Shortest

/-!
# Reading decimal text

A decimal is an optional sign followed by `inf`, `infinity` or `nan` in any case, or by
digits with an optional point and an optional exponent. At least one digit stands before
or after the point, and at least one in an exponent. The value is rounded to the nearest
binary64 number, ties to even; beyond the greatest it is infinite.
-/

namespace Fluxion

namespace Decimal

/-- The nearest binary64 number. The first two branches keep the powers of ten small:
they hold only of numbers far outside the range of binary64. -/
def toFloat (d : Decimal) : Float :=
  if d.digits = 0 then 0
  else if 310 < d.exponent then Float.ofScientific 1 false 400
  else if d.exponent < -(400 + d.digits.log2 : Int) then 0
  else Float.ofScientific d.digits (decide (d.exponent < 0)) d.exponent.natAbs

/-- Reads digits onto a number that is already read. -/
def accumulate (n : Nat) (cs : List Char) : Nat :=
  cs.foldl (fun n c => 10 * n + (c.toNat - '0'.toNat)) n

def exponent? : List Char → Option Int
  | [] => some 0
  | mark :: cs =>
    if mark = 'e' ∨ mark = 'E' then
      match cs with
      | '-' :: ds => (natural? ds).map fun n => -(n : Int)
      | '+' :: ds => (natural? ds).map fun n => (n : Int)
      | ds => (natural? ds).map fun n => (n : Int)
    else none
where
  natural? (ds : List Char) : Option Nat :=
    if ds ≠ [] ∧ ds.all Char.isDigit then some (accumulate 0 ds) else none

/-- Digits, point and exponent. -/
def scan? (cs : List Char) : Option Decimal :=
  let whole := cs.takeWhile Char.isDigit
  let rest := cs.dropWhile Char.isDigit
  let (fraction, rest) := match rest with
    | '.' :: tail => (tail.takeWhile Char.isDigit, tail.dropWhile Char.isDigit)
    | _ => ([], rest)
  if whole = [] ∧ fraction = [] then none
  else (exponent? rest).map fun e =>
    ⟨accumulate (accumulate 0 whole) fraction, e - fraction.length⟩

def unsigned? (cs : List Char) : Option Float :=
  match String.ofList (cs.map Char.toLower) with
  | "inf" | "infinity" => some (1 / 0)
  | "nan" => some (0 / 0)
  | _ => (scan? cs).map toFloat

def read? (text : String) : Option Float :=
  match text.toList with
  | '-' :: cs => (unsigned? cs).map fun x => -x
  | '+' :: cs => unsigned? cs
  | cs => unsigned? cs

end Decimal

end Fluxion
