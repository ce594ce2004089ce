/-!
# Arithmetic of binary64 numbers

The operations a formula needs beyond the four of `Float`. Each states its special
values in full, so that what it does on them can be read off and proved.

`remainder` and `floor` are exact : they unpack a number into sign, mantissa and
exponent and work on integers. `raise` is the power function with its two laws that hold
even for an undefined operand : anything to the power zero is one, and one to any power
is one.
-/

namespace Formula

open Float.Model

/-- The undefined number. -/
def undefined : Float :=
  0.0 / 0.0

/-- The remainder of `x` by `y` after division toward zero, exact and with the sign of
`x`. It is undefined for an infinite `x` and for `y` zero, and `x` itself for an infinite
`y`. -/
def remainder (x y : Float) : Float :=
  match x.toModel.unpack, y.toModel.unpack with
  | .finite sign m e _, .finite _ n f _ =>
    let g := min e f
    let r := (m <<< (e - g).toNat) % (n <<< (f - g).toNat)
    .ofModel (.pack (.normalize .binary64 (sign.apply r) g sign))
  | .finite .., .infinity _ => x
  | .zero _, .infinity _ => x
  | .zero _, .finite .. => x
  | _, _ => undefined

/-- The greatest integer that is not above `x`. -/
def floor (x : Float) : Float :=
  match x.toModel.unpack with
  | .finite sign m e _ =>
    if 0 ≤ e then x
    else
      let places := (-e).toNat
      match sign with
      | .positive => .ofNat (m >>> places)
      | .negative => -.ofNat ((m + (1 <<< places) - 1) >>> places)
  | _ => x

/-- The power `x ^ y`. -/
def raise (x y : Float) : Float :=
  if y == 0.0 then 1.0
  else if x == 1.0 then 1.0
  else if x.isNaN || y.isNaN then undefined
  else x.pow y

end Formula
