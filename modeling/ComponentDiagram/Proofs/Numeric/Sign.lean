import ComponentDiagram.Proofs.Numeric.Read

/-! Doubles that are not negative. Those are at least zero, but for the one that is no number. -/
namespace ComponentDiagram
open Float.Model Float.Model.UnpackedFloat

private theorem unpack_zero : (0 : Float).toModel.unpack = .zero .positive := rfl

private theorem lt_zero_iff (x : Float) :
    x < 0 ↔ x.toModel.unpack.lt (.zero .positive) = true := by
  simp only [LT.lt, Float.lt, Float.Model.lt, unpack_zero]
  exact decide_eq_true_iff

private theorem zero_le_iff (x : Float) :
    0 ≤ x ↔ (UnpackedFloat.zero .positive).le x.toModel.unpack = true := by
  simp only [LE.le, Float.le, Float.Model.le, unpack_zero]
  exact decide_eq_true_iff

/-- What is not less than zero is at least zero, or no number. -/
theorem nonneg_or_isNaN {x : Float} (h : ¬ x < 0) : 0 ≤ x ∨ x.isNaN = true := by
  rw [lt_zero_iff] at h
  rw [zero_le_iff, Float.isNaN, Float.Model.isNaN]
  generalize x.toModel.unpack = u at h ⊢
  cases u with
  | infinity sign =>
    cases sign with
    | positive => exact .inl rfl
    | negative => exact absurd rfl h
  | notANumber => exact .inr rfl
  | zero sign => exact .inl rfl
  | finite sign m e hm =>
    cases sign with
    | positive => exact .inl rfl
    | negative => exact absurd rfl h

/-- A double without a sign bit that is finite is at least zero. -/
theorem ofBits_nonneg {bits : Nat} (h : bits < infinityBits) :
    0 ≤ Float.ofBits (UInt64.ofNat bits) := by
  have hinf : infinityBits = 2047 * 2 ^ 52 := rfl
  rw [hinf] at h
  have hnat : (UInt64.ofNat bits).toNat = bits := UInt64.toNat_ofNat_of_lt' (by
    rw [UInt64.size]
    omega)
  have hfield : bits / 2 ^ 52 % 2 ^ 11 ≠ 2047 := by omega
  have hexponent : @unpackExponent .binary64 (UInt64.ofNat bits).toBitVec ≠ -1#_ :=
    unpackExponent_ne (by rwa [hnat])
  have hsign : @unpackSign .binary64 (UInt64.ofNat bits).toBitVec = 0#1 := by
    refine BitVec.eq_of_toNat_eq (Eq.trans (unpackSign_toNat _) ?_)
    rw [hnat, BitVec.toNat_zero]
    omega
  have hkept : (Float.ofBits (UInt64.ofNat bits)).toModel.toBits = UInt64.ofNat bits :=
    toBits_ofBits (by rwa [hnat])
  rw [zero_le_iff, Float.Model.unpack, hkept, UnpackedFloat.unpack]
  dsimp only
  rw [if_neg hexponent, hsign]
  split
  · split <;> rfl
  · rfl

/-- An integer that is not negative is read as a number that is not. -/
theorem floatOfInt?_nonneg {n : Int} {x : Float} (hn : 0 ≤ n) (h : floatOfInt? n = some x) :
    0 ≤ x := by
  rw [floatOfInt?] at h
  split at h
  · cases h
  · rename_i hfinite
    have hlt := Nat.lt_of_le_of_ne (nearestBits_le n.natAbs 1) hfinite
    cases h
    rw [nearestFloat, decide_eq_false (Int.not_lt.mpr hn), if_neg Bool.false_ne_true, Nat.zero_add]
    exact ofBits_nonneg hlt

end ComponentDiagram
