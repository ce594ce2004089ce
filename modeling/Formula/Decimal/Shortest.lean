/-!
# The shortest decimal of a number

A binary64 number is written with the fewest decimal digits that read back as the same
number. The reals that read back as `m · 2 ^ e` form an interval around it, the `Basin` :
it reaches half way to the two neighbours, and its ends belong to it exactly when `m` is
even, because a tie is read as the even neighbour.

`Basin.hit?` looks at the grid of decimals with a given number of digits. Only the two
grid points around the number can be the nearest in the basin. `Basin.shortest` takes the
first grid with a hit, and of two hits on it the nearer one, the upper one on a tie.
Seventeen digits always suffice.
-/

namespace Formula

/-- Decimal digits and the place of their point : `0.d₁d₂…` times `10 ^ point`. -/
structure Decimal where
  digits : List Char
  point : Int
  deriving Repr, DecidableEq

/-- The reals between `low / unit` and `high / unit`, with `mid / unit` the number they
read back as. The two ends belong to it when it is closed. -/
structure Basin where
  low : Nat
  mid : Nat
  high : Nat
  unit : Nat
  closed : Bool
  deriving Repr, DecidableEq

namespace Basin

/-- The basin of `m · 2 ^ e`, measured in quarters of the last place. The neighbour
below a power of two is only half as far away as the one above. -/
def ofFinite (m : Nat) (e : Int) : Basin :=
  let scale := Nat.pow 2 (e - 2).toNat
  let below := if m = Nat.pow 2 52 then 1 else 2
  { low := (4 * m - below) * scale
    mid := 4 * m * scale
    high := (4 * m + 2) * scale
    unit := Nat.pow 2 (2 - e).toNat
    closed := m % 2 = 0 }

/-- The place of the point : the number is at least `10 ^ (point - 1)` and below
`10 ^ point`. No power of ten below one is a binary fraction, so the quotient taken the
other way round never is one either. -/
def point (b : Basin) : Int :=
  if b.unit ≤ b.mid then (Nat.toDigits 10 (b.mid / b.unit)).length
  else 1 - (Nat.toDigits 10 (b.unit / b.mid)).length

/-- Whether `a` is below `b`, or equal to it in a closed basin. -/
def before (basin : Basin) (a b : Nat) : Bool :=
  a < b || (basin.closed && a = b)

/-- The multiple of `10 ^ (point - count)` in the basin that is nearest to the number,
if there is one. -/
def hit? (b : Basin) (point : Int) (count : Nat) : Option Nat :=
  let up := Nat.pow 10 (count - point).toNat
  let grid := b.unit * Nat.pow 10 (point - count).toNat
  let below := b.mid * up / grid
  let rest := b.mid * up % grid
  let takesBelow := b.before (b.low * up) (below * grid)
  let takesAbove := b.before ((below + 1) * grid) (b.high * up)
  if takesAbove && (!takesBelow || grid ≤ 2 * rest) then some (below + 1)
  else if takesBelow then some below
  else none

/-- The decimal with the digits of `n`, less trailing zeros, where `n` counts multiples of
`10 ^ exponent`. -/
def decimalOf (n : Nat) (exponent : Int) : Decimal :=
  let digits := Nat.toDigits 10 n
  { digits := (digits.reverse.dropWhile (· = '0')).reverse
    point := digits.length + exponent }

/-- The shortest decimal in the basin. -/
def shortest (b : Basin) : Decimal :=
  let point := b.point
  let hit := (List.range 17).findSome? fun k =>
    (b.hit? point (k + 1)).map fun n => decimalOf n (point - (k + 1))
  hit.getD (decimalOf (b.mid / b.unit) 0)

end Basin

end Formula
