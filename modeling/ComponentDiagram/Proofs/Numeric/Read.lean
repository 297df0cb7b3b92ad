import ComponentDiagram.Proofs.Numeric.Whole

/-! A double that is read from an integer is whole, and no negative zero. -/
namespace ComponentDiagram

/-- The parts of the double with given fields. -/
theorem Binary64.ofFloat_fields {negative : Bool} {field fraction : Nat} (hf : field < 2047)
    (hq : fraction < 2 ^ 52) :
    Binary64.ofFloat (Float.ofBits (UInt64.ofNat
      ((if negative then 2 ^ 63 else 0) + (field * 2 ^ 52 + fraction)))) =
      if field = 0 then .finite negative fraction (-1074)
      else .finite negative (2 ^ 52 + fraction) ((field : Int) - 1075) := by
  have hunit : Nat.pow 2 52 = 4503599627370496 := rfl
  have hfields : Nat.pow 2 11 = 2048 := rfl
  have hsign : Nat.pow 2 63 = 9223372036854775808 := rfl
  simp only [Nat.reducePow] at hq ⊢
  generalize hb : (if negative = true then 9223372036854775808 else 0) +
    (field * 4503599627370496 + fraction) = bits
  have hlt : bits < 18446744073709551616 := by
    rw [← hb]
    split <;> omega
  have htop : bits / 9223372036854775808 % 2 = if negative = true then 1 else 0 := by
    rw [← hb]
    split <;> omega
  have hmiddle : bits / 4503599627370496 % 2048 = field := by
    rw [← hb]
    split <;> omega
  have hlow : bits % 4503599627370496 = fraction := by
    rw [← hb]
    split <;> omega
  have hnat : (UInt64.ofNat bits).toNat = bits := UInt64.toNat_ofNat_of_lt' hlt
  have hkept : (Float.ofBits (UInt64.ofNat bits)).toBits = UInt64.ofNat bits := by
    refine toBits_ofBits ?_
    rw [hnat]
    simp only [Nat.reducePow, hmiddle]
    omega
  rw [Binary64.ofFloat, hkept, hnat, Binary64.ofBits]
  simp only [hunit, hfields, hsign, hmiddle, hlow, htop, if_neg (Nat.ne_of_lt hf)]
  cases negative <;> rfl

private theorem div_le_roundDiv (num den : Nat) : num / den ≤ roundDiv num den := by
  unfold roundDiv
  dsimp only
  split
  · exact Nat.le_refl _
  · split <;> omega

/-- A positive number of at most 53 bits is a double. -/
theorem isScaled_of_small {n : Nat} (hn : n ≠ 0) (hlog : n.log2 ≤ 52) :
    ∃ field fraction : Nat, 0 < field ∧ field < 2047 ∧ fraction < 2 ^ 52 ∧
      IsScaled (2 ^ 52 + fraction) ((field : Int) - 1075) n := by
  have hlow := Nat.log2_self_le hn
  have hhigh := Nat.lt_log2_self (n := n)
  obtain ⟨k, hk⟩ := Nat.exists_eq_add_of_le hlog
  have hmin : 2 ^ 52 ≤ n * 2 ^ k := by
    rw [hk, Nat.pow_add]
    exact Nat.mul_le_mul_right _ hlow
  have hmax : n * 2 ^ k < 2 ^ 53 := by
    rw [show 53 = n.log2 + 1 + k by omega, Nat.pow_add]
    exact Nat.mul_lt_mul_of_pos_right hhigh (Nat.two_pow_pos k)
  refine ⟨n.log2 + 1023, n * 2 ^ k - 2 ^ 52, by omega, by omega, by omega, ?_⟩
  have hzero : (((n.log2 + 1023 : Nat) : Int) - 1075).toNat = 0 := by omega
  have hneg : (-(((n.log2 + 1023 : Nat) : Int) - 1075)).toNat = k := by omega
  rw [IsScaled, hzero, hneg, Nat.add_sub_cancel' hmin, Nat.pow_zero, Nat.mul_one]

/-- The bits of the double nearest to a number of at least 53 bits, rounded to 53 of them. -/
theorem nearestBits_eq {n k : Nat} (h : n.log2 = 52 + k) : nearestBits n 1 =
    min infinityBits ((k + 1074) * 2 ^ 52 + roundDiv n (2 ^ k)) := by
  have hn : n ≠ 0 := by
    rintro rfl
    rw [show Nat.log2 0 = 0 by decide] at h
    omega
  have hguess : (n.log2 : Int) - (Nat.log2 1 : Int) - 52 = (k : Int) := by
    rw [show Nat.log2 1 = 0 by decide]
    omega
  have hscale : scaleDown n 1 (k : Int) = (n, 2 ^ k) := by
    rw [scaleDown, if_pos (by omega), Int.toNat_natCast, Nat.one_mul]
    rfl
  have hle : 2 ^ 52 * 2 ^ k ≤ n := by
    rw [← Nat.pow_add, ← h]
    exact Nat.log2_self_le hn
  have hbig : ¬ n < Nat.pow 2 52 * 2 ^ k := Nat.not_lt.mpr hle
  have hexponent : max (-1074) (k : Int) = (k : Int) := by omega
  have hfield : ((k : Int) + 1074).toNat = k + 1074 := by omega
  rw [nearestBits, if_neg hn]
  simp only [hguess, hscale, if_neg hbig, hexponent, hfield]
  rfl

theorem le_roundDiv_of_log2 {n k : Nat} (h : n.log2 = 52 + k) : 2 ^ 52 ≤ roundDiv n (2 ^ k) := by
  have hn : n ≠ 0 := by
    rintro rfl
    rw [show Nat.log2 0 = 0 by decide] at h
    omega
  refine ((Nat.le_div_iff_mul_le (Nat.two_pow_pos k)).mpr ?_).trans (div_le_roundDiv ..)
  rw [← Nat.pow_add, ← h]
  exact Nat.log2_self_le hn

/-- The double nearest to a number of more than 53 bits is large. -/
private theorem nearestBits_large {n : Nat} (hlog : 52 < n.log2) :
    1075 * 2 ^ 52 ≤ nearestBits n 1 := by
  obtain ⟨k, hk⟩ := Nat.exists_eq_add_of_lt hlog
  have hinf : infinityBits = 2047 * 2 ^ 52 := rfl
  rw [nearestBits_eq (k := k + 1) (by omega), hinf]
  have hmul : 1075 * 2 ^ 52 ≤ (k + 1 + 1074) * 2 ^ 52 := Nat.mul_le_mul_right _ (by omega)
  exact Nat.le_min.mpr ⟨Nat.mul_le_mul_right _ (by decide), hmul.trans (Nat.le_add_right ..)⟩

/-- The double nearest to a positive number is the number, or large. -/
theorem nearestBits_one {n : Nat} (hn : n ≠ 0) :
    (∃ field fraction : Nat, 0 < field ∧ field < 2047 ∧ fraction < 2 ^ 52 ∧
      IsScaled (2 ^ 52 + fraction) ((field : Int) - 1075) n) ∨
    1075 * 2 ^ 52 ≤ nearestBits n 1 :=
  (Nat.lt_or_ge 52 n.log2).symm.imp (isScaled_of_small hn) nearestBits_large

theorem nearestBits_le (num den : Nat) : nearestBits num den ≤ infinityBits := by
  unfold nearestBits
  split
  · exact Nat.zero_le _
  · exact Nat.min_le_left ..

/-- The double nearest to a positive number has whole parts. -/
theorem nearestBits_whole {n : Nat} (hn : n ≠ 0) (h : nearestBits n 1 ≠ infinityBits) :
    ∃ field fraction value : Nat, 0 < field ∧ field < 2047 ∧ fraction < 2 ^ 52 ∧
      nearestBits n 1 = field * 2 ^ 52 + fraction ∧
      IsScaled (2 ^ 52 + fraction) ((field : Int) - 1075) value := by
  rcases nearestBits_one hn with ⟨field, fraction, hf, hf', hq, hs⟩ | hlarge
  · exact ⟨field, fraction, n, hf, hf', hq, nearestBits_scaled hf hf' hq hs, hs⟩
  · have hlt : nearestBits n 1 < 2047 * 2 ^ 52 := Nat.lt_of_le_of_ne (nearestBits_le n 1) h
    have hunit := Nat.two_pow_pos 52
    have hfield : 1075 ≤ nearestBits n 1 / 2 ^ 52 := (Nat.le_div_iff_mul_le hunit).mpr hlarge
    have hexponent : (-((nearestBits n 1 / 2 ^ 52 : Nat) - 1075 : Int)).toNat = 0 := by omega
    refine ⟨nearestBits n 1 / 2 ^ 52, nearestBits n 1 % 2 ^ 52,
      (2 ^ 52 + nearestBits n 1 % 2 ^ 52) * 2 ^ ((nearestBits n 1 / 2 ^ 52 : Nat) - 1075 : Int).toNat,
      by omega, (Nat.div_lt_iff_lt_mul hunit).mpr hlt, Nat.mod_lt _ hunit,
      (Nat.div_add_mod' ..).symm, ?_⟩
    rw [IsScaled, hexponent, Nat.pow_zero, Nat.mul_one]

/-- A double that is read is whole, and no negative zero. -/
theorem whole_of_coordinate {text : String} {x : Float}
    (h : Grammar.Reader.coordinateOf text = .ok x) : IsWhole x ∧ unsignedZero x = x := by
  obtain ⟨n, hn⟩ : ∃ n, floatOfInt? n = some x := by
    unfold Grammar.Reader.coordinateOf at h
    split at h
    · cases h
    · split at h
      · cases h
      · dsimp only at h
        split at h
        · rename_i y hy
          cases h
          exact ⟨_, hy⟩
        · cases h
  unfold floatOfInt? at hn
  split at hn
  · cases hn
  · rename_i hfinite
    have hx := Option.some.inj hn
    rw [nearestFloat] at hx
    rcases Nat.eq_zero_or_pos n.natAbs with hzero | hpos
    · have hn : n = 0 := by omega
      rw [hn] at hx
      subst hx
      exact ⟨⟨false, 0, -1074, 0, by decide +kernel, by decide +kernel⟩, by decide +kernel⟩
    · obtain ⟨field, fraction, value, hf, hf', hq, hbits, hs⟩ :=
        nearestBits_whole (Nat.pos_iff_ne_zero.mp hpos) hfinite
      rw [hbits] at hx
      have hparts := @Binary64.ofFloat_fields (decide (n < 0)) _ _ hf' hq
      rw [if_neg (Nat.pos_iff_ne_zero.mp hf)] at hparts
      have hpow : Nat.pow 2 63 = 2 ^ 63 := rfl
      rw [hpow] at hx
      rw [hx] at hparts
      refine ⟨⟨_, _, _, value, hparts, hs⟩, ?_⟩
      rw [unsignedZero, hparts]
      split
      · rename_i he
        simp only [Binary64.finite.injEq] at he
        omega
      · rfl

end ComponentDiagram
