import ComponentDiagram.Proofs.Numeric.Whole
import Mathlib

/-! Exact coordinates: the integer that is written for a rational is at most half a unit away, and
an integer is written as itself and read back. -/
namespace ComponentDiagram

/-- The integer that is written for a rational. -/
def nearest (x : Rat) : Int := roundRatio (x.num < 0) x.num.natAbs x.den

theorem nearestInt_rat (x : Rat) : Scalar.nearestInt x = .ok (nearest x) := rfl

private theorem roundDiv_error (num den : Nat) (h : 0 < den) :
    |(roundDiv num den : Rat) - num / den| ≤ 1 / 2 := by
  obtain ⟨hupper, hlower⟩ := roundDiv_near num den h
  have hpos : (0 : Rat) < den := Nat.cast_pos.mpr h
  have hupper' : 2 * ((roundDiv num den : Rat) * den) ≤ 2 * num + den := by exact_mod_cast hupper
  have hlower' : 2 * (num : Rat) ≤ 2 * (roundDiv num den * den) + den := by exact_mod_cast hlower
  have hnum : (num : Rat) / den * den = num := div_mul_cancel₀ _ hpos.ne'
  rw [abs_le]
  constructor <;> nlinarith

/-- A rational is rounded by at most a half. -/
theorem nearest_error (x : Rat) : |(nearest x : Rat) - x| ≤ 1 / 2 := by
  have hdivided : (x.num : Rat) / x.den = x := Rat.num_div_den x
  have hnear := roundDiv_error x.num.natAbs x.den x.den_pos
  rw [nearest, roundRatio]
  by_cases hneg : x.num < 0
  · have habs : ((x.num.natAbs : Nat) : Rat) = -x.num := by
      rw [Nat.cast_natAbs, abs_of_neg hneg, Int.cast_neg]
    rw [habs, neg_div, hdivided] at hnear
    rw [decide_eq_true hneg, if_pos rfl, Int.cast_neg, Int.cast_natCast, ← abs_neg]
    rw [show -(-(roundDiv x.num.natAbs x.den : Rat) - x) =
      (roundDiv x.num.natAbs x.den : Rat) - -x by ring]
    exact hnear
  · have habs : ((x.num.natAbs : Nat) : Rat) = x.num := by
      rw [Nat.cast_natAbs, abs_of_nonneg (not_lt.mp hneg)]
    rw [habs, hdivided] at hnear
    rw [decide_eq_false hneg, if_neg Bool.false_ne_true, Int.cast_natCast]
    exact hnear

@[simp] theorem nearest_intCast (n : Int) : nearest n = n := by
  have hround := roundDiv_mul n.natAbs Nat.one_pos
  rw [Nat.mul_one] at hround
  rw [nearest, Rat.num_intCast, Rat.den_intCast, roundRatio, hround]
  split <;> rename_i hn <;> simp only [decide_eq_true_eq] at hn <;> omega

/-- The rational is an integer. -/
def IsInteger (x : Rat) : Prop := x.den = 1

instance : DecidablePred IsInteger := fun x => inferInstanceAs (Decidable (x.den = 1))

theorem isInteger_intCast (n : Int) : IsInteger n := Rat.den_intCast n

theorem IsInteger.nearest_eq {x : Rat} (h : IsInteger x) : (nearest x : Rat) = x := by
  have hx : (x.num : Rat) = x := (Rat.den_eq_one_iff x).mp h
  rw [← hx, nearest_intCast]

/-- An integer that is written is read as itself, however long it is. -/
theorem coordinateOf_integer (n : Int) :
    Grammar.Reader.coordinateOf (toString n) = .ok (n : Rat) := by
  have hlimit : Scalar.digitLimit Rat = none := rfl
  rw [coordinateOf_toString (by simp [hlimit])]
  rfl

end ComponentDiagram
