/-! Rounding a quotient to the nearest integer, and rounding a ratio to the nearest double. -/
namespace ComponentDiagram

/-- The integer nearest to `num / den`; a half goes to the even neighbour. -/
def roundDiv (num den : Nat) : Nat :=
  let quotient := num / den
  let rest := num % den
  if 2 * rest < den then quotient
  else if den < 2 * rest then quotient + 1
  else quotient + quotient % 2

/-- The quotient is at most half a unit away. -/
theorem roundDiv_near (num den : Nat) (h : 0 < den) :
    2 * (roundDiv num den * den) ≤ 2 * num + den ∧
      2 * num ≤ 2 * (roundDiv num den * den) + den := by
  have split := Nat.div_add_mod num den
  have small := Nat.mod_lt num h
  have parity : num / den % 2 = 0 ∨ num / den % 2 = 1 := by omega
  have comm : den * (num / den) = num / den * den := Nat.mul_comm ..
  simp only [roundDiv]
  split
  · omega
  · split
    · rw [Nat.add_mul]; omega
    · rcases parity with even | odd
      · rw [even]; simp only [Nat.add_zero]; omega
      · rw [odd, Nat.add_mul]; omega

/-- `num / 2 ^ exponent`, as a fraction of natural numbers. -/
def scaleDown (num den : Nat) (exponent : Int) : Nat × Nat :=
  if 0 ≤ exponent then (num, den * Nat.pow 2 exponent.toNat)
  else (num * Nat.pow 2 (-exponent).toNat, den)

/-- Bit pattern of positive infinity. -/
def infinityBits : Nat := 2047 * Nat.pow 2 52

/-- Bit pattern of the double nearest to `num / den`, without its sign. A half goes to the even
significand, and what lies beyond the largest double becomes infinity. A significand that rounds
up to the next power of two carries into the exponent field by itself. -/
def nearestBits (num den : Nat) : Nat :=
  if num = 0 then 0
  else
    let guess : Int := (num.log2 : Int) - (den.log2 : Int) - 52
    let (n, d) := scaleDown num den guess
    let exponent := max (-1074) (if n < Nat.pow 2 52 * d then guess - 1 else guess)
    let (n, d) := scaleDown num den exponent
    min infinityBits ((exponent + 1074).toNat * Nat.pow 2 52 + roundDiv n d)

end ComponentDiagram
