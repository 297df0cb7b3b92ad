import ComponentDiagram.Numeric.Binary64

/-! The shortest decimal that reads back as a double: `digits * 10 ^ exponent` with the fewest
digits in the interval of reals that round to it, and the nearest of those. -/
namespace ComponentDiagram.Shortest

/-- `n * 2 ^ e` against `d * 10 ^ k`, by cross-multiplication. -/
def compareGrid (n : Nat) (e : Int) (d : Nat) (k : Int) : Ordering :=
  compare (n * Nat.pow 2 e.toNat * Nat.pow 10 (-k).toNat)
    (d * Nat.pow 10 k.toNat * Nat.pow 2 (-e).toNat)

/-- The decimal exponent of the leading digit of `n * 2 ^ e`, for positive `n`. The estimate from
the binary logarithm is never more than one off. -/
def leadingExponent (n : Nat) (e : Int) : Int :=
  let guess := ((n.log2 : Int) + e) * 30103 / 100000
  if compareGrid n e 1 (guess + 1) != .lt then guess + 1
  else if compareGrid n e 1 guess == .lt then guess - 1
  else guess

/-- The largest multiple of `10 ^ k` that is at most `n * 2 ^ e`. -/
def gridFloor (n : Nat) (e k : Int) : Nat :=
  (n * Nat.pow 2 e.toNat * Nat.pow 10 (-k).toNat) /
    (Nat.pow 10 k.toNat * Nat.pow 2 (-e).toNat)

/-- Some real that rounds to `significand * 2 ^ exponent` is `d * 10 ^ k`. The interval reaches half
a unit up and down, a quarter down where the spacing below is narrower; its ends belong to an even
significand. -/
def readsBack (significand : Nat) (exponent : Int) (d : Nat) (k : Int) : Bool :=
  let below := if significand = Nat.pow 2 52 && exponent != -1074 then 1 else 2
  let low := compareGrid (4 * significand - below) (exponent - 2) d k
  let high := compareGrid (4 * significand + 2) (exponent - 2) d k
  if significand % 2 = 0 then low != .gt && high != .lt else low == .lt && high == .gt

/-- Of the two neighbours on the grid of `10 ^ k` that read back, the nearer one, a tie going to
the even digit. -/
def onGrid? (significand : Nat) (exponent k : Int) : Option Nat :=
  let low := gridFloor significand exponent k
  let high := low + 1
  match readsBack significand exponent low k, readsBack significand exponent high k with
  | true, false => some low
  | false, true => some high
  | false, false => none
  | true, true =>
    match compareGrid (2 * significand) exponent (low + high) k with
    | .lt => some low
    | .gt => some high
    | .eq => some (low + low % 2)

/-- Try one digit, then two, and so on; the last grid has seventeen and always succeeds. -/
def search (significand : Nat) (exponent top : Int) : Nat → Nat × Int
  | 0 => (gridFloor significand exponent (top - 16), top - 16)
  | left + 1 =>
    let k := top - 16 + left
    match onGrid? significand exponent k with
    | some d => (d, k)
    | none => search significand exponent top left

/-- The digits of the shortest decimal, without zeros at the end, and the place of the decimal point
counted from the first digit. -/
def decimal (significand : Nat) (exponent : Int) : List Char × Int :=
  if significand = 0 then (['0'], 1)
  else
    let (d, k) := search significand exponent (leadingExponent significand exponent) 17
    let digits := Nat.toDigits 10 d
    ((digits.reverse.dropWhile (· == '0')).reverse, digits.length + k)

/-- The text of a finite number: positional when the leading digit stands between the fourth place
after the point and the sixteenth before it, else with an exponent of at least two digits. -/
def finiteText (significand : Nat) (exponent : Int) : List Char :=
  let (digits, point) := decimal significand exponent
  let count : Int := digits.length
  if -4 < point && point ≤ 16 then
    if point ≤ 0 then '0' :: '.' :: (List.replicate (-point).toNat '0' ++ digits)
    else if point < count then digits.take point.toNat ++ '.' :: digits.drop point.toNat
    else digits ++ List.replicate (point - count).toNat '0' ++ ['.', '0']
  else
    let power := point - 1
    let mantissa := match digits with
      | first :: [] => [first]
      | first :: rest => first :: '.' :: rest
      | [] => []
    let places := Nat.toDigits 10 power.natAbs
    mantissa ++ ['e', if power < 0 then '-' else '+'] ++
      List.replicate (2 - places.length) '0' ++ places

/-- The text of a double. -/
def text (x : Float) : String :=
  match Binary64.ofFloat x with
  | .finite negative significand exponent =>
    (if negative then "-" else "") ++ String.ofList (finiteText significand exponent)
  | .infinite negative => if negative then "-inf" else "inf"
  | .nan => "nan"

end ComponentDiagram.Shortest
