import ComponentDiagram.Proofs.Numeric.Read

/-! Finite doubles have a nearest integer, and it is the value of a double again. -/
namespace ComponentDiagram

/-- The double is neither infinite nor no number. -/
def IsFinite (x : Float) : Prop :=
  ∃ negative significand exponent, Binary64.ofFloat x = .finite negative significand exponent

instance : DecidablePred IsFinite := fun x =>
  match hx : Binary64.ofFloat x with
  | .finite negative s e => .isTrue ⟨negative, s, e, hx⟩
  | .infinite _ => .isFalse fun ⟨_, _, _, hx'⟩ => nomatch hx.symm.trans hx'
  | .nan => .isFalse fun ⟨_, _, _, hx'⟩ => nomatch hx.symm.trans hx'

theorem IsFinite.nearestInt {x : Float} (h : IsFinite x) : ∃ n, Scalar.nearestInt x = .ok n := by
  obtain ⟨negative, significand, exponent, hx⟩ := h
  have hround : roundFloat x = .ok (roundRatio negative (scaleDown significand 1 (-exponent)).1
      (scaleDown significand 1 (-exponent)).2) := by
    rw [roundFloat, hx]
  exact ⟨_, hround⟩

/-- An integer below the largest double is read as a double. -/
theorem floatOfInt?_small {n : Int} (h : n.natAbs.log2 ≤ 52) : ∃ y, floatOfInt? n = some y := by
  have hne : nearestBits n.natAbs 1 ≠ infinityBits := by
    rcases Nat.eq_zero_or_pos n.natAbs with hzero | hpos
    · rw [hzero]
      decide
    · obtain ⟨field, fraction, hf, hf', hq, hs⟩ := isScaled_of_small (Nat.pos_iff_ne_zero.mp hpos) h
      have hle : (field + 1) * 2 ^ 52 ≤ 2047 * 2 ^ 52 := Nat.mul_le_mul_right _ hf'
      have hinf : infinityBits = 2047 * 2 ^ 52 := rfl
      rw [nearestBits_scaled hf hf' hq hs, hinf]
      rw [Nat.add_mul] at hle
      generalize 2 ^ 52 = unit at hle hq ⊢
      omega
  exact ⟨_, by rw [floatOfInt?, if_neg hne]⟩

private theorem roundDiv_le (num : Nat) {k : Nat} (hk : 0 < k) (h : num < 2 ^ 53) :
    roundDiv num (2 ^ k) ≤ 2 ^ 52 := by
  have hquotient : num / 2 ^ k ≤ num / 2 :=
    Nat.div_le_div_left (Nat.le_self_pow (Nat.pos_iff_ne_zero.mp hk) 2) (by decide)
  have hup : roundDiv num (2 ^ k) ≤ num / 2 ^ k + 1 := by
    unfold roundDiv
    dsimp only
    split
    · omega
    · split <;> omega
  omega

private theorem log2_le {n : Nat} (h : n ≤ 2 ^ 52) : n.log2 ≤ 52 := by
  rcases Nat.eq_zero_or_pos n with rfl | hpos
  · decide
  · have hlt : n < 2 ^ 53 := by omega
    exact Nat.le_of_lt_succ ((Nat.log2_lt (Nat.pos_iff_ne_zero.mp hpos)).mpr hlt)

/-- A finite double is written as an integer that can be read. -/
theorem IsFinite.coordinate {x : Float} (h : IsFinite x) : ∃ n y,
    Scalar.nearestInt x = .ok n ∧
      Grammar.Reader.coordinateOf (α := Float) (toString n) = .ok y := by
  obtain ⟨negative, significand, exponent, hx⟩ := h
  rcases lt_or_ge exponent 0 with hexponent | hexponent
  · obtain ⟨k, hk, rfl⟩ : ∃ k : Nat, 0 < k ∧ exponent = -(k : Int) :=
      ⟨exponent.natAbs, by omega, by omega⟩
    have hsmall : significand < 2 ^ 53 := by
      obtain ⟨field, fraction, -, hq, -, ⟨-, rfl, -⟩ | ⟨-, rfl, -⟩⟩ := Binary64.finite_fields hx <;>
        omega
    have hround : Scalar.nearestInt x = .ok (roundRatio negative significand (2 ^ k)) := by
      change roundFloat x = _
      rw [roundFloat, hx]
      simp only [Int.neg_neg, scaleDown, if_pos (Int.natCast_nonneg k), Int.toNat_natCast,
        Nat.one_mul]
      rfl
    have habs : (roundRatio negative significand (2 ^ k)).natAbs ≤ 2 ^ 52 := by
      rw [roundRatio]
      have hle := roundDiv_le significand hk hsmall
      split <;> simpa using hle
    obtain ⟨y, hy⟩ := floatOfInt?_small (log2_le habs)
    refine ⟨_, y, hround, ?_⟩
    have hread : Scalar.ofInt? (roundRatio negative significand (2 ^ k)) = some y := hy
    rw [coordinateOf_toString (limited_digits ((log2_le habs).trans_lt (by decide))), hread]
  · obtain ⟨n, hn, hread⟩ := IsWhole.coordinate ⟨negative, significand, exponent,
      significand * 2 ^ exponent.toNat, hx, by
        rw [IsScaled, show (-exponent).toNat = 0 by omega, Nat.pow_zero, Nat.mul_one]⟩
    exact ⟨n, _, hn, hread⟩

end ComponentDiagram
