import ComponentDiagram.Numeric.Binary64

/-! The exact decimal expansion of a double: no exponent, and no zeros at the end of a fraction. -/
namespace ComponentDiagram.Expansion

/-- `digits / 10 ^ places`, the point left out where nothing follows it. -/
def fixed (digits : List Char) (places : Nat) : List Char :=
  let padded := List.replicate (places + 1 - digits.length) '0' ++ digits
  let whole := padded.take (padded.length - places)
  let fraction := ((padded.drop (padded.length - places)).reverse.dropWhile (· == '0')).reverse
  if fraction.isEmpty then whole else whole ++ '.' :: fraction

/-- The expansion of a finite number; the fraction of a power of two has as many decimal places as
binary ones. -/
def finite (significand : Nat) (exponent : Int) : List Char :=
  if 0 ≤ exponent then Nat.toDigits 10 (significand * Nat.pow 2 exponent.toNat)
  else
    let places := (-exponent).toNat
    fixed (Nat.toDigits 10 (significand * Nat.pow 5 places)) places

/-- The text of a double. Zero has no sign. -/
def text (x : Float) : String :=
  match Binary64.ofFloat x with
  | .finite negative significand exponent =>
    (if negative && significand != 0 then "-" else "") ++
      String.ofList (finite significand exponent)
  | .infinite negative => if negative then "-inf" else "inf"
  | .nan => "nan"

end ComponentDiagram.Expansion
