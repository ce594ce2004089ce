import Formula.Decimal.Shortest

/-!
# Number styles

How the shortest digits of a number are laid out. `Style.value` is for results and for
the constants of a formula, `Style.plain` for the numbers inside a message.
-/

namespace Formula

open Float.Model (UnpackedFloat)

/-- The mark of a negative number, which negative zero and negative infinity have too. -/
def signText : UnpackedFloat.Sign → String
  | .negative => "-"
  | .positive => ""

namespace Decimal

/-- Digits with a point among them, and zeros where the digits do not reach the point.
A whole number ends in `.0` if `keepPoint` says so. -/
def positional (d : Decimal) (keepPoint : Bool) : String :=
  if d.point ≤ 0 then
    "0." ++ String.ofList (List.replicate (-d.point).toNat '0' ++ d.digits)
  else
    let whole := d.point.toNat
    if d.digits.length ≤ whole then
      String.ofList (d.digits ++ List.replicate (whole - d.digits.length) '0') ++
        (if keepPoint then ".0" else "")
    else
      String.ofList (d.digits.take whole ++ '.' :: d.digits.drop whole)

/-- One digit, the others after a point, and a power of ten. -/
def scientific (d : Decimal) : String :=
  let rest := d.digits.drop 1
  let mantissa := d.digits.take 1 ++ (if rest.isEmpty then [] else '.' :: rest)
  String.ofList mantissa ++ "e" ++ toString (d.point - 1)

end Decimal

/-- Which places of the point are written positionally, and whether a whole number
shows its point. -/
structure Style where
  isPositional : Int → Bool
  keepPoint : Bool

namespace Style

/-- Positional from `0.0001` to below `10 ^ 16`, with the point kept. -/
def value : Style :=
  ⟨fun point => -3 ≤ point && point ≤ 16, true⟩

/-- Always positional, with no point on a whole number. -/
def plain : Style :=
  ⟨fun _ => true, false⟩

/-- The text of a number. -/
def text (style : Style) (x : Float) : String :=
  match x.toModel.unpack with
  | .notANumber => "NaN"
  | .infinity sign => signText sign ++ "inf"
  | .zero sign => signText sign ++ (if style.keepPoint then "0.0" else "0")
  | .finite sign m e _ =>
    let d := (Basin.ofFinite m e).shortest
    signText sign ++
      (if style.isPositional d.point then d.positional style.keepPoint else d.scientific)

end Style

end Formula
