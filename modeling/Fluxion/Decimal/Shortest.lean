/-!
# The shortest decimal of a binary number

A finite binary64 magnitude is `mantissa * 2 ^ exponent`. The reals that round to it
form an interval, which contains its ends exactly when the mantissa is even. The
shortest decimal of the magnitude is the point of that interval on the coarsest
power-of-ten grid that has one there; of two such points it is the nearer, and of two
equally near the greater. All comparisons are exact.
-/

namespace Fluxion

/-- The number `digits * 10 ^ exponent`. -/
structure Decimal where
  digits : Nat
  exponent : Int
deriving DecidableEq, Inhabited

/-- The number `mantissa * 2 ^ exponent` as a point of the binary64 line. -/
structure Magnitude where
  mantissa : Nat
  exponent : Int
  /-- The gap to the next number below is half the gap to the next above. -/
  narrowBelow : Bool
deriving DecidableEq, Inhabited

/-- The power of two that a scale multiplies by; one if the scale divides. -/
def twos (n : Int) : Nat := Nat.pow 2 n.toNat

/-- The power of ten that a scale multiplies by; one if the scale divides. -/
def tens (n : Int) : Nat := Nat.pow 10 n.toNat

namespace Magnitude

/-- Reads the bits of a finite number and drops its sign. -/
def ofBits (bits : UInt64) : Magnitude :=
  let scale := ((bits >>> 52) &&& 0x7FF).toNat
  let fraction := (bits &&& 0xFFFFFFFFFFFFF).toNat
  if scale = 0 then ⟨fraction, -1074, false⟩
  else ⟨0x10000000000000 + fraction, (scale : Int) - 1075, fraction == 0 && scale > 1⟩

/-- Compares `d` with `n * 2 ^ j`. -/
def compareWith (d : Decimal) (n : Nat) (j : Int) : Ordering :=
  compare (d.digits * tens d.exponent * twos (-j)) (n * twos j * tens (-d.exponent))

/-- Whether `d` is among the reals that round to `x`. -/
def holds (x : Magnitude) (d : Decimal) : Bool :=
  let lower := 4 * x.mantissa - (if x.narrowBelow then 1 else 2)
  let upper := 4 * x.mantissa + 2
  let closed := x.mantissa % 2 == 0
  let above := compareWith d lower (x.exponent - 2)
  let below := compareWith d upper (x.exponent - 2)
  (above == .gt || (closed && above == .eq)) && (below == .lt || (closed && below == .eq))

/-- The greatest multiple of `10 ^ grid` that does not exceed `x`. -/
def floorOn (x : Magnitude) (grid : Int) : Decimal :=
  ⟨x.mantissa * twos x.exponent * tens (-grid) / (twos (-x.exponent) * tens grid), grid⟩

/-- The point of the grid that rounds to `x`, if there is one: of the two neighbours of
`x` on the grid the nearer, and the upper one when both are equally near. -/
def onGrid? (x : Magnitude) (grid : Int) : Option Decimal :=
  let below := x.floorOn grid
  let above : Decimal := ⟨below.digits + 1, grid⟩
  if x.holds below then
    if x.holds above then
      let middle : Decimal := ⟨below.digits + above.digits, grid⟩
      if compareWith middle (2 * x.mantissa) x.exponent = .gt then below else above
    else below
  else if x.holds above then above
  else none

/-- No decimal above `10 ^ x.scale` rounds to `x`: a bound on the decimal logarithm that
exceeds it by less than three. -/
def scale (x : Magnitude) : Int :=
  ((x.mantissa.log2 : Int) + x.exponent) * 30103 / 100000 + 2

/-- The value itself, with all its digits. -/
def exact (x : Magnitude) : Decimal :=
  ⟨x.mantissa * twos x.exponent * Nat.pow 5 (-x.exponent).toNat, min x.exponent 0⟩

/-- Seventeen digits always suffice, so twenty grids below the scale do. -/
def shortest (x : Magnitude) : Decimal :=
  ((List.range 20).findSome? fun (n : Nat) => x.onGrid? (x.scale - n)).getD x.exact

example : (ofBits 0x3FB999999999999A).shortest = ⟨1, -1⟩ := by decide +kernel

/-- Two decimals of 17 digits are equally near to `2 ^ -25`, and the greater one is taken. -/
example : (ofBits 0x3E60000000000000).shortest = ⟨29802322387695313, -24⟩ := by
  decide +kernel

end Magnitude

end Fluxion
