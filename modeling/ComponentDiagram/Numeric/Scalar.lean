import ComponentDiagram.Numeric.Binary64

/-! The numbers that coordinates, sizes and settings are made of: doubles when a diagram is laid
out, exact rationals when its geometry is reasoned about. -/
namespace ComponentDiagram

/-- A number that is no integer and has no nearest one. -/
inductive Unbounded
  | infinite
  | notANumber
deriving Repr, DecidableEq, Inhabited

/-- Numbers with the four operations, comparison, and passage from and to the integers. -/
class Scalar (α : Type) extends Add α, Sub α, Mul α, Div α, LT α, LE α, BEq α where
  ofNat : Nat → α
  /-- The nearest number, unless the integer lies beyond all of them. -/
  ofInt? : Int → Option α
  /-- The nearest integer; a half goes to the even neighbour. -/
  nearestInt : α → Except Unbounded Int
  /-- The most digits that an integer is read with, unless there is no limit. -/
  digitLimit : Option Nat
  decLt : ∀ x y : α, Decidable (x < y)
  decLe : ∀ x y : α, Decidable (x ≤ y)

namespace Scalar

variable {α : Type} [Scalar α]

instance (x y : α) : Decidable (x < y) := decLt x y

instance (x y : α) : Decidable (x ≤ y) := decLe x y

def zero : α := ofNat 0

def two : α := ofNat 2

/-- The second number if it is greater, else the first. -/
def max (x y : α) : α := if x < y then y else x

/-- The second number if it is smaller, else the first. -/
def min (x y : α) : α := if y < x then y else x

/-- Half of a number. -/
def half (x : α) : α := x / two

end Scalar

/-- Nearest integer to `± num / den`. -/
def roundRatio (negative : Bool) (num den : Nat) : Int :=
  if negative then -(roundDiv num den : Int) else roundDiv num den

/-- Nearest integer to a double. -/
def roundFloat (x : Float) : Except Unbounded Int :=
  match Binary64.ofFloat x with
  | .finite negative significand exponent =>
    let (num, den) := scaleDown significand 1 (-exponent)
    .ok (roundRatio negative num den)
  | .infinite _ => .error .infinite
  | .nan => .error .notANumber

instance : Scalar Float where
  ofNat n := nearestFloat false n 1
  ofInt? := floatOfInt?
  nearestInt := roundFloat
  digitLimit := some 4300
  decLt _ _ := inferInstance
  decLe _ _ := inferInstance

instance : Scalar Rat where
  ofNat n := n
  ofInt? n := some n
  nearestInt q := .ok (roundRatio (q.num < 0) q.num.natAbs q.den)
  digitLimit := none
  decLt _ _ := inferInstance
  decLe _ _ := inferInstance

end ComponentDiagram
