import ComponentDiagram.Numeric.Binary64
import Mathlib

/-! A double is its bits. -/
namespace ComponentDiagram
open Float.Model Float.Model.UnpackedFloat

private theorem sign_bits (v : BitVec 1) : (Sign.ofBitVec v).toBitVec = v := by
  revert v
  decide

/-- Bits are put together again from their fields. -/
private theorem packComponents_of {b : BitVec Format.binary64.numBits}
    {e : BitVec Format.binary64.exponentBits}
    {m : BitVec Format.binary64.mantissaBitsWithoutImplicit} (he : unpackExponent b = e)
    (hm : unpackMantissa b = m) :
    packComponents .binary64 (Sign.ofBitVec (unpackSign b)) e m = b := by
  rw [← he, ← hm, packComponents, sign_bits]
  ext i hi
  simp only [unpackSign, unpackExponent, unpackMantissa, BitVec.extractLsb]
  grind

private theorem toNat_implicit (v : BitVec 52) : (1#1 ++ v).toNat = 2 ^ 52 + v.toNat := by
  rw [BitVec.toNat_append, ← Nat.shiftLeft_add_eq_or_of_lt v.isLt]
  rfl

private theorem log2_implicit {m : Nat} (h : m < 2 ^ 52) : (2 ^ 52 + m).log2 = 52 := by
  rw [Nat.log2_eq_iff (by omega)]
  omega

private theorem log2_fraction {m : Nat} (h : m < 2 ^ 52) : m.log2 ≠ 52 := by
  intro hl
  rcases Nat.eq_zero_or_pos m with rfl | hm
  · cases hl
  · have hle := Nat.log2_self_le (Nat.pos_iff_ne_zero.mp hm)
    rw [hl] at hle
    omega

/-- The bits of a double are packed as they were unpacked. -/
private theorem pack_unpack {b : BitVec Format.binary64.numBits} (h : Format.binary64.Valid b) :
    UnpackedFloat.pack .binary64 (UnpackedFloat.unpack .binary64 b) = b := by
  have hbias : (Format.binary64.exponentBias : Int) = 1023 := rfl
  have hwidth : (Format.binary64.mantissaBitsWithoutImplicit : Int) = 52 := rfl
  have hm := (unpackMantissa b).isLt
  have he := (unpackExponent b).isLt
  change _ < 2 ^ 52 at hm
  change _ < 2 ^ 11 at he
  rw [UnpackedFloat.unpack]
  split
  · rename_i hexp
    split
    · exact packComponents_of hexp ‹_›
    · exact (h.eq_packedNaN hexp ‹_›).symm
  · rename_i hexp
    split
    · rename_i hzero
      split
      · exact packComponents_of hzero ‹_›
      · have hnat : (unpackExponent b).toNat = 0 := by rw [hzero]; rfl
        have hbiased : ((unpackExponent b).toNat : Int) - (Format.binary64.exponentBias +
            Format.binary64.mantissaBitsWithoutImplicit) + 1 + Format.binary64.exponentBias +
              Format.binary64.mantissaBitsWithoutImplicit = 1 := by omega
        rw [UnpackedFloat.pack]
        simp only [hbiased]
        rw [if_neg (by decide), if_neg]
        · refine packComponents_of hzero (BitVec.eq_of_toNat_eq ?_)
          rw [BitVec.toNat_ofNat, Nat.mod_eq_of_lt (unpackMantissa b).isLt]
        · intro hl
          exact log2_fraction hm (Nat.succ.inj hl)
    · have hbiased : ((unpackExponent b).toNat : Int) - (Format.binary64.exponentBias +
          Format.binary64.mantissaBitsWithoutImplicit) + Format.binary64.exponentBias +
            Format.binary64.mantissaBitsWithoutImplicit = (unpackExponent b).toNat := by omega
      have hne : (unpackExponent b).toNat ≠ 2 ^ 11 - 1 := by
        intro he'
        exact hexp (BitVec.eq_of_toNat_eq he')
      rw [UnpackedFloat.pack]
      simp only [hbiased, Int.toNat_natCast]
      rw [if_neg, if_pos]
      · refine packComponents_of (BitVec.eq_of_toNat_eq ?_) (BitVec.eq_of_toNat_eq ?_)
        · rw [BitVec.toNat_ofNat, Nat.mod_eq_of_lt (unpackExponent b).isLt]
        · rw [BitVec.toNat_ofNat]
          refine Eq.trans ?_ (congrArg (· % 2 ^ 52) (toNat_implicit (unpackMantissa b))).symm
          rw [Nat.add_mod_left, Nat.mod_eq_of_lt hm]
      · refine congrArg (· + 1) (Eq.trans (congrArg Nat.log2 (toNat_implicit _)) ?_)
        exact log2_implicit hm
      · omega

theorem ofBits_toBits (x : Float) : Float.ofBits x.toBits = x := by
  obtain ⟨⟨bits, valid⟩⟩ := x
  have hpack := pack_unpack valid
  simp only [Float.ofBits, Float.toBits, Float.Model.ofBits, Float.Model.pack, hpack]

theorem unpackExponent_toNat (bits : UInt64) :
    (@unpackExponent .binary64 bits.toBitVec).toNat = bits.toNat / 2 ^ 52 % 2 ^ 11 := by
  rw [unpackExponent, BitVec.toNat_cast, BitVec.extractLsb_toNat, Nat.shiftRight_eq_div_pow]
  rfl

theorem unpackSign_toNat (bits : UInt64) :
    (@unpackSign .binary64 bits.toBitVec).toNat = bits.toNat / 2 ^ 63 % 2 := by
  rw [unpackSign, BitVec.toNat_cast, BitVec.extractLsb_toNat, Nat.shiftRight_eq_div_pow]
  rfl

/-- The exponent of a finite number is not the largest one. -/
theorem unpackExponent_ne {bits : UInt64} (h : bits.toNat / 2 ^ 52 % 2 ^ 11 ≠ 2047) :
    @unpackExponent .binary64 bits.toBitVec ≠ -1#_ := by
  intro he
  rw [← unpackExponent_toNat, he] at h
  exact h rfl

/-- The bits of a number that is finite are kept. -/
theorem toBits_ofBits {bits : UInt64} (h : bits.toNat / 2 ^ 52 % 2 ^ 11 ≠ 2047) :
    (Float.ofBits bits).toBits = bits := by
  have hvalid : Format.binary64.Valid bits.toBitVec :=
    ⟨fun he => absurd he (unpackExponent_ne h)⟩
  simp only [Float.ofBits, Float.toBits, Float.Model.ofBits, Float.Model.pack, pack_unpack hvalid]

end ComponentDiagram
