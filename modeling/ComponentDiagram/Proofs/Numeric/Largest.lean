import ComponentDiagram.Proofs.Numeric.Finite

/-! Which integers are read as doubles: those that are not too long, and that do not round beyond the
largest double. -/
namespace ComponentDiagram

/-- A quotient is rounded up to an even number exactly if it lies at most half a unit below. -/
theorem roundDiv_carry {num half q : Nat} (heven : q % 2 = 0)
    (h : num < q * (2 * half)) : q ≤ roundDiv num (2 * half) ↔ q * (2 * half) ≤ num + half := by
  have hhalf : 0 < half := by
    rcases Nat.eq_zero_or_pos half with rfl | hpos
    · simp at h
    · exact hpos
  have hsplit := Nat.div_add_mod num (2 * half)
  have hrest := Nat.mod_lt num (show 0 < 2 * half by omega)
  have hlt : num / (2 * half) < q := (Nat.div_lt_iff_lt_mul (by omega)).mpr h
  obtain ⟨m, rfl⟩ := Nat.exists_eq_add_of_lt hlt
  have hproduct : (num / (2 * half) + m + 1) * (2 * half) =
      2 * half * (num / (2 * half)) + m * (2 * half) + 2 * half := by ring
  rw [hproduct]
  unfold roundDiv
  dsimp only
  rcases Nat.eq_zero_or_pos m with rfl | hm
  · have hodd : num / (2 * half) % 2 = 1 := by omega
    rw [Nat.zero_mul, hodd]
    split
    · omega
    · split <;> omega
  · have hle : 2 * half ≤ m * (2 * half) := Nat.le_mul_of_pos_left _ hm
    refine iff_of_false ?_ (by omega)
    split
    · omega
    · split <;> omega

/-- The least number that no double is nearest to: it lies half way between the largest double and
the power of two behind it. -/
def leastInfinite : Nat := 2 ^ 970 * (2 ^ 54 - 1)

section

variable {n k : Nat} (hk : n.log2 = 53 + k)

include hk

private theorem size_of_log2 : 2 ^ 52 * 2 ^ (k + 1) ≤ n ∧ n < 2 ^ 53 * 2 ^ (k + 1) := by
  have hn : n ≠ 0 := by
    rintro rfl
    rw [show Nat.log2 0 = 0 by decide] at hk
    omega
  rw [← Nat.pow_add, ← Nat.pow_add, show 52 + (k + 1) = n.log2 by omega,
    show 53 + (k + 1) = n.log2 + 1 by omega]
  exact ⟨Nat.log2_self_le hn, Nat.lt_log2_self⟩

/-- A number is rounded to infinity if the exponent field is full, or if it becomes so. -/
private theorem nearestBits_full : nearestBits n 1 = infinityBits ↔
    972 ≤ k + 1 ∨ k = 970 ∧ 2 ^ 53 ≤ roundDiv n (2 ^ (k + 1)) := by
  have hsize := size_of_log2 hk
  have hleast := le_roundDiv_of_log2 (n := n) (k := k + 1) (by omega)
  have hmost : roundDiv n (2 ^ (k + 1)) ≤ 2 ^ 53 := by
    have hnear := (roundDiv_near n (2 ^ (k + 1)) (Nat.two_pow_pos _)).1
    have hlt : roundDiv n (2 ^ (k + 1)) * 2 ^ (k + 1) < (2 ^ 53 + 1) * 2 ^ (k + 1) := by
      rw [Nat.add_mul]
      omega
    exact Nat.le_of_lt_succ (Nat.lt_of_mul_lt_mul_right hlt)
  have hinf : infinityBits = 2047 * 2 ^ 52 := rfl
  rw [nearestBits_eq (k := k + 1) (by omega), hinf, min_eq_left_iff]
  omega

end

/-- The bound, with its exponent as a variable: the power itself is never evaluated. -/
private theorem nearestBits_infinite_at {n place : Nat} (hplace : place = 970) :
    nearestBits n 1 = infinityBits ↔ 2 ^ place * (2 ^ 54 - 1) ≤ n := by
  rcases Nat.lt_or_ge 52 n.log2 with hlog | hlog
  · obtain ⟨k, hk⟩ := Nat.exists_eq_add_of_lt hlog
    have hk : n.log2 = 53 + k := by omega
    obtain ⟨hlow, hhigh⟩ := size_of_log2 hk
    rw [nearestBits_full hk]
    rcases Nat.lt_trichotomy k place with hlt | rfl | hgt
    · have hle : 2 ^ (k + 1) ≤ 2 ^ place := Nat.pow_le_pow_right (by decide) hlt
      refine iff_of_false (by omega) (Nat.not_le.mpr (hhigh.trans_le ?_))
      rw [Nat.mul_comm (2 ^ place)]
      exact Nat.mul_le_mul (by decide) hle
    · have hcarry : 2 ^ 53 ≤ roundDiv n (2 ^ (k + 1)) ↔ 2 ^ 53 * (2 * 2 ^ k) ≤ n + 2 ^ k := by
        rw [show 2 ^ (k + 1) = 2 * 2 ^ k from Nat.pow_succ'] at hhigh ⊢
        exact roundDiv_carry rfl hhigh
      rw [hcarry]
      generalize 2 ^ k = unit
      omega
    · have hle : 2 ^ (place + 2) ≤ 2 ^ (k + 1) := Nat.pow_le_pow_right (by decide) (by omega)
      refine iff_of_true (by omega) ?_
      calc 2 ^ place * (2 ^ 54 - 1) ≤ 2 ^ place * 2 ^ 54 := Nat.mul_le_mul_left _ (Nat.sub_le ..)
        _ = 2 ^ 52 * 2 ^ (place + 2) := by rw [← Nat.pow_add, ← Nat.pow_add]; congr 1; omega
        _ ≤ 2 ^ 52 * 2 ^ (k + 1) := Nat.mul_le_mul_left _ hle
        _ ≤ n := hlow
  · obtain ⟨y, hy⟩ : ∃ y, floatOfInt? (n : Int) = some y :=
      floatOfInt?_small (by rwa [Int.natAbs_natCast])
    have hhigh := Nat.lt_log2_self (n := n)
    have hle : 2 ^ (n.log2 + 1) ≤ 2 ^ 53 := Nat.pow_le_pow_right (by decide) (by omega)
    have hleast : 2 ^ 54 - 1 ≤ 2 ^ place * (2 ^ 54 - 1) :=
      Nat.le_mul_of_pos_left _ (Nat.two_pow_pos place)
    refine iff_of_false (fun he => ?_) (by omega)
    rw [floatOfInt?, Int.natAbs_natCast, if_pos he] at hy
    cases hy

theorem nearestBits_infinite {n : Nat} : nearestBits n 1 = infinityBits ↔ leastInfinite ≤ n :=
  nearestBits_infinite_at rfl

/-- An integer is a double unless it is too large. -/
theorem floatOfInt?_none {n : Int} : floatOfInt? n = none ↔ leastInfinite ≤ n.natAbs := by
  rw [floatOfInt?]
  split
  · rename_i h
    exact iff_of_true rfl (nearestBits_infinite.mp h)
  · rename_i h
    exact iff_of_false (by simp) fun hle => h (nearestBits_infinite.mpr hle)

/-- An integer cannot be read as a coordinate if it has more than 4300 digits, or if it is too
large. -/
theorem coordinateOf_error {text : String} {negative : Bool} {digits : List Nat}
    (h : Text.signedDigits? text.toList = some (negative, digits)) {e : Grammar.Failure} :
    (Grammar.Reader.coordinateOf text : Except Grammar.Failure Float) = .error e ↔
      (4300 < digits.length ∧ e = .coordinateTooLong) ∨
      (digits.length ≤ 4300 ∧ leastInfinite ≤ Text.digitsValue digits ∧
        e = .coordinateTooLarge) := by
  have hlimit : (Scalar.digitLimit Float).any (· < digits.length) =
      decide (4300 < digits.length) := rfl
  have habs : (if negative = true then -(Text.digitsValue digits : Int)
      else Text.digitsValue digits).natAbs = Text.digitsValue digits := by
    split <;> simp
  have hnone := floatOfInt?_none (n := if negative = true then -(Text.digitsValue digits : Int)
    else Text.digitsValue digits)
  rw [habs] at hnone
  have hread (n : Int) : (Scalar.ofInt? n : Option Float) = floatOfInt? n := rfl
  rw [Grammar.Reader.coordinateOf, h]
  simp only [hlimit, hread]
  by_cases hlong : 4300 < digits.length
  · simp [hlong, Nat.not_le.mpr hlong, eq_comm]
  · simp only [hlong, decide_false, Bool.false_eq_true, if_false, false_and, false_or,
      Nat.not_lt.mp hlong, true_and]
    cases hvalue : floatOfInt? (if negative = true then -(Text.digitsValue digits : Int)
        else Text.digitsValue digits) with
    | none => simp [hnone.mp hvalue, eq_comm]
    | some x =>
      have hsmall : ¬ leastInfinite ≤ Text.digitsValue digits := fun hle => by
        rw [hnone.mpr hle] at hvalue
        cases hvalue
      simp [hsmall]

end ComponentDiagram
