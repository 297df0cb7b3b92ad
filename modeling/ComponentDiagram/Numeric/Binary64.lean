import ComponentDiagram.Numeric.Rounding

/-! Doubles as exact numbers: taking one apart, and the nearest double to a ratio. -/
namespace ComponentDiagram

/-- A double taken apart; a finite one is `± significand * 2 ^ exponent`. -/
inductive Binary64
  | finite (negative : Bool) (significand : Nat) (exponent : Int)
  | infinite (negative : Bool)
  | nan
deriving Repr, DecidableEq, Inhabited

namespace Binary64

/-- The parts of a bit pattern. -/
def ofBits (bits : Nat) : Binary64 :=
  let negative := bits / Nat.pow 2 63 % 2 == 1
  let field : Nat := bits / Nat.pow 2 52 % Nat.pow 2 11
  let fraction : Nat := bits % Nat.pow 2 52
  if field = 2047 then (if fraction = 0 then .infinite negative else .nan)
  else if field = 0 then .finite negative fraction (-1074)
  else .finite negative (Nat.pow 2 52 + fraction) ((field : Int) - 1075)

/-- The parts of a double. -/
def ofFloat (x : Float) : Binary64 :=
  ofBits x.toBits.toNat

end Binary64

/-- The double nearest to `± num / den`. -/
def nearestFloat (negative : Bool) (num den : Nat) : Float :=
  Float.ofBits (UInt64.ofNat ((if negative then Nat.pow 2 63 else 0) + nearestBits num den))

/-- The double nearest to an integer, unless it would be infinite. -/
def floatOfInt? (n : Int) : Option Float :=
  if nearestBits n.natAbs 1 = infinityBits then none
  else some (nearestFloat (n < 0) n.natAbs 1)

/-- The double nearest to `± digits * 10 ^ exponent`. A number whose leading digit is four hundred
places away from the point is infinite or zero, however far its exponent goes. -/
def floatOfDecimal (negative : Bool) (digits : Nat) (exponent : Int) : Float :=
  let places : Int := digits.log2 * 30103 / 100000
  if digits = 0 || exponent + places < -400 then nearestFloat negative 0 1
  else if 400 < exponent + places then nearestFloat negative (Nat.pow 2 1024) 1
  else if 0 ≤ exponent then nearestFloat negative (digits * Nat.pow 10 exponent.toNat) 1
  else nearestFloat negative digits (Nat.pow 10 (-exponent).toNat)

end ComponentDiagram
