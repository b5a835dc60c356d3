/-!
# The shortest decimal of a float

A finite float is `mantissa * 2 ^ exponent`, and every real number nearer to it than to its
neighbours reads back as it. `shortest` finds the decimal with the fewest digits among these, the
nearest one if there are several: on the grid of the decimals with `n` digits it tests the two
neighbours of the float, for `n` from 1 on. Seventeen digits always suffice.
-/

namespace StaticSite.Decimal

/-- What the bits of a float say. -/
inductive Parts where
  /-- No number. -/
  | nan
  /-- An infinity. -/
  | infinite (negative : Bool)
  /-- The number `mantissa * 2 ^ exponent` or its opposite. -/
  | finite (negative : Bool) (mantissa : Nat) (exponent : Int)
deriving DecidableEq, Repr

/-- Reads the bits of a float. -/
def parts (x : Float) : Parts :=
  let bits := x.toBits.toNat
  let negative := bits / Nat.pow 2 63 == 1
  let power : Nat := bits / Nat.pow 2 52 % Nat.pow 2 11
  let fraction : Nat := bits % Nat.pow 2 52
  if power == 2047 then if fraction == 0 then .infinite negative else .nan
  else if power == 0 then .finite negative fraction (-1074)
  else .finite negative (Nat.pow 2 52 + fraction) ((power : Int) - 1075)

/-- A power of a natural number with an integral exponent, as numerator and denominator. -/
def ratio (base : Nat) (exponent : Int) : Nat × Nat :=
  if 0 ≤ exponent then (base.pow exponent.toNat, 1) else (1, base.pow (-exponent).toNat)

/-- A float beside the grid of the multiples of `10 ^ k`: `point / grid` is the float in units of
the grid, `low / grid` and `high / grid` bound the numbers that read back as it. -/
structure OnGrid where
  /-- Four times the float, over the common denominator. -/
  point : Nat
  /-- The lower bound, over the common denominator. -/
  low : Nat
  /-- The upper bound, over the common denominator. -/
  high : Nat
  /-- One unit of the grid, over the common denominator. -/
  grid : Nat
  /-- Whether the bounds themselves read back as the float. -/
  closed : Bool

/-- Places `mantissa * 2 ^ exponent` beside the grid of the multiples of `10 ^ k`. The neighbour
below a power of two is half as far away as the one above. -/
def onGrid (mantissa : Nat) (exponent k : Int) : OnGrid :=
  let two := ratio 2 (exponent - 2)
  let ten := ratio 10 k
  let scale := two.1 * ten.2
  let below := if mantissa == Nat.pow 2 52 && exponent != -1074 then 1 else 2
  { point := 4 * mantissa * scale
    low := (4 * mantissa - below) * scale
    high := (4 * mantissa + 2) * scale
    grid := two.2 * ten.1
    closed := mantissa % 2 == 0 }

/-- Whether the multiple `c` of the grid reads back as the float. -/
def OnGrid.reads (g : OnGrid) (c : Nat) : Bool :=
  let x := c * g.grid
  if g.closed then g.low ≤ x && x ≤ g.high else g.low < x && x < g.high

/-- The multiple of the grid that is nearest to the float among those that read back as it; of two
equally near the even one. -/
def OnGrid.nearest? (g : OnGrid) : Option Nat :=
  let down := g.point / g.grid
  let up := down + 1
  match g.reads down, g.reads up with
  | true, true =>
    let twice := 2 * (g.point % g.grid)
    if twice < g.grid || (twice == g.grid && down % 2 == 0) then some down else some up
  | true, false => some down
  | false, true => some up
  | false, false => none

/-- Whether `mantissa * 2 ^ exponent` is below `10 ^ d`. -/
def isBelow (mantissa : Nat) (exponent d : Int) : Bool :=
  let two := ratio 2 exponent
  let ten := ratio 10 d
  mantissa * two.1 * ten.2 < ten.1 * two.2

/-- The number of digits before the point of `mantissa * 2 ^ exponent`: the least `d` such that it
is below `10 ^ d`. It is looked for from an estimate by the binary logarithm on. -/
def magnitude (mantissa : Nat) (exponent : Int) : Int :=
  let estimate := Int.fdiv ((exponent + mantissa.log2) * 30103) 100000 - 1
  let candidates := (List.range 5).map fun (i : Nat) => estimate + i
  (candidates.find? (isBelow mantissa exponent)).getD (estimate + 5)

/-- A number with its trailing zeros moved into the exponent, `fuel` of them at most. -/
def dropZeros : (fuel : Nat) → Nat → Int → Nat × Int
  | 0, c, k => (c, k)
  | fuel + 1, c, k => if c != 0 && c % 10 == 0 then dropZeros fuel (c / 10) (k + 1) else (c, k)

/-- The shortest decimal `c * 10 ^ k` that reads back as the positive float
`mantissa * 2 ^ exponent`. -/
def shortest (mantissa : Nat) (exponent : Int) : Nat × Int :=
  let d := magnitude mantissa exponent
  let found := (List.range 17).findSome? fun i =>
    let k := d - (i + 1 : Nat)
    (onGrid mantissa exponent k).nearest?.map fun c => (c, k)
  let best := found.getD (0, 0)
  dropZeros 20 best.1 best.2

end StaticSite.Decimal
