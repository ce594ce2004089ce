import Formula.Decimal.Style

/-!
# Fixed places

Numbers for the columns of a table : the exact binary value rounded to a number of
decimal places, with ties to the even neighbour. The sign stays even when every digit
that is written is zero.
-/

namespace Formula

open Float.Model (UnpackedFloat)

/-- The integer nearest to `num / den`, an even one on a tie. -/
def roundHalfEven (num den : Nat) : Nat :=
  let below := num / den
  let twice := 2 * (num % den)
  if twice < den then below
  else if den < twice then below + 1
  else below + below % 2

/-- `n` tenth parts, hundredth parts and so on, written with `places` digits after the
point. -/
def placesText (n places : Nat) : String :=
  let digits := Nat.toDigits 10 n
  let padded := List.replicate (places + 1 - digits.length) '0' ++ digits
  let whole := padded.length - places
  String.ofList (padded.take whole ++ (if places = 0 then [] else '.' :: padded.drop whole))

/-- A number with a fixed number of decimal places. -/
def fixedText (places : Nat) (x : Float) : String :=
  match x.toModel.unpack with
  | .notANumber => "NaN"
  | .infinity sign => signText sign ++ "inf"
  | .zero sign => signText sign ++ placesText 0 places
  | .finite sign m e _ =>
    let num := m * Nat.pow 2 e.toNat * Nat.pow 10 places
    signText sign ++ placesText (roundHalfEven num (Nat.pow 2 (-e).toNat)) places

/-- A text with blanks in front, up to a width. -/
def alignRight (width : Nat) (text : String) : String :=
  String.ofList (List.replicate (width - text.length) ' ') ++ text

end Formula
