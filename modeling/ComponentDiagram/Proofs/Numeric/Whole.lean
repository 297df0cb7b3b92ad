import ComponentDiagram.Grammar.Statement
import ComponentDiagram.Proofs.Numeric.Bits
import ComponentDiagram.Proofs.Text.Integer

/-! Whole doubles are written as integers, and read back. -/
namespace ComponentDiagram

/-! ## Exact quotients -/

theorem roundDiv_mul (n : Nat) {d : Nat} (h : 0 < d) : roundDiv (n * d) d = n := by
  rw [roundDiv, Nat.mul_div_cancel n h, Nat.mul_mod_left]
  simp [h]

/-- `significand * 2 ^ exponent` is the natural number. -/
def IsScaled (significand : Nat) (exponent : Int) (n : Nat) : Prop :=
  significand * 2 ^ exponent.toNat = n * 2 ^ (-exponent).toNat

instance (significand : Nat) (exponent : Int) (n : Nat) :
    Decidable (IsScaled significand exponent n) :=
  inferInstanceAs (Decidable (_ = _))

theorem IsScaled.symm {s n : Nat} {e : Int} (h : IsScaled s e n) : IsScaled n (-e) s := by
  rw [IsScaled, Int.neg_neg]
  exact Eq.symm h

/-- A scaled number is an exact quotient. -/
theorem IsScaled.quotient {s n : Nat} {e : Int} (h : IsScaled s e n) :
    ∃ d, 0 < d ∧ scaleDown s 1 (-e) = (n * d, d) := by
  rw [IsScaled] at h
  rw [scaleDown]
  split
  · have he : e.toNat = 0 := by omega
    rw [he, Nat.pow_zero, Nat.mul_one] at h
    exact ⟨2 ^ (-e).toNat, Nat.two_pow_pos _, by rw [h, Nat.one_mul]; rfl⟩
  · have he : (-e).toNat = 0 := by omega
    rw [he, Nat.pow_zero, Nat.mul_one] at h
    rw [Int.neg_neg]
    exact ⟨1, Nat.one_pos, by rw [Nat.mul_one, ← h]; rfl⟩

theorem IsScaled.eq_zero {s n j k : Nat} (h : IsScaled s (-(k : Int)) n) (hs : s < 2 ^ j)
    (hj : j ≤ k) : s = 0 ∧ n = 0 := by
  have he : s = n * 2 ^ k := by simpa [IsScaled] using h
  have hpow : 2 ^ j ≤ 2 ^ k := Nat.pow_le_pow_right (by decide) hj
  rcases Nat.eq_zero_or_pos n with rfl | hn
  · exact ⟨by simpa using he, rfl⟩
  · have hle : 2 ^ k ≤ n * 2 ^ k := Nat.le_mul_of_pos_left _ hn
    omega

theorem IsScaled.log2 {s n : Nat} {e : Int} (h : IsScaled s e n) (hs : 2 ^ 52 ≤ s)
    (hs' : s < 2 ^ 53) : n ≠ 0 ∧ (n.log2 : Int) = 52 + e := by
  obtain ⟨k, rfl | rfl⟩ := Int.eq_nat_or_neg e
  · have hn : n = s * 2 ^ k := by simpa [IsScaled] using h.symm
    have hlow : 2 ^ (52 + k) ≤ n := by
      rw [hn, Nat.pow_add]
      exact Nat.mul_le_mul_right _ hs
    have hhigh : n < 2 ^ (52 + k + 1) := by
      rw [hn, show 52 + k + 1 = 53 + k by omega, Nat.pow_add]
      exact Nat.mul_lt_mul_of_pos_right hs' (Nat.two_pow_pos k)
    have hne : n ≠ 0 := by
      have := Nat.two_pow_pos (52 + k)
      omega
    exact ⟨hne, by rw [(Nat.log2_eq_iff hne).mpr ⟨hlow, hhigh⟩]; omega⟩
  · have hn : s = n * 2 ^ k := by simpa [IsScaled] using h
    have hne : n ≠ 0 := by
      rintro rfl
      omega
    have hk : k ≤ 52 := by
      by_contra hk
      have hpow : 2 ^ 53 ≤ 2 ^ k := Nat.pow_le_pow_right (by decide) (by omega)
      have hmul : 2 ^ k ≤ n * 2 ^ k := Nat.le_mul_of_pos_left _ (Nat.pos_of_ne_zero hne)
      omega
    obtain ⟨j, hj⟩ := Nat.exists_eq_add_of_le' hk
    have hlow : 2 ^ j ≤ n := by
      refine Nat.le_of_mul_le_mul_right ?_ (Nat.two_pow_pos k)
      rw [← Nat.pow_add, ← hj, ← hn]
      exact hs
    have hhigh : n < 2 ^ (j + 1) := by
      refine Nat.lt_of_mul_lt_mul_right (a := 2 ^ k) ?_
      rw [← hn, ← Nat.pow_add, show j + 1 + k = 53 by omega]
      exact hs'
    exact ⟨hne, by rw [(Nat.log2_eq_iff hne).mpr ⟨hlow, hhigh⟩]; omega⟩

/-! ## The nearest double -/

/-- The double nearest to a natural number that is a normal double is this double. -/
theorem nearestBits_scaled {field fraction n : Nat} (hf : 0 < field) (hf' : field < 2047)
    (hq : fraction < 2 ^ 52) (h : IsScaled (2 ^ 52 + fraction) ((field : Int) - 1075) n) :
    nearestBits n 1 = field * 2 ^ 52 + fraction := by
  obtain ⟨hne, hlog⟩ := h.log2 (by omega) (by omega)
  obtain ⟨d, hd, hscale⟩ := h.symm.quotient
  rw [Int.neg_neg] at hscale
  have hguess : (n.log2 : Int) - (Nat.log2 1 : Int) - 52 = (field : Int) - 1075 := by
    rw [hlog, show Nat.log2 1 = 0 by decide]
    omega
  have hbig : ¬ (2 ^ 52 + fraction) * d < Nat.pow 2 52 * d :=
    Nat.not_lt.mpr (Nat.mul_le_mul_right d (Nat.le_add_right (2 ^ 52) fraction))
  have hexponent : max (-1074) ((field : Int) - 1075) = (field : Int) - 1075 := by omega
  rw [nearestBits, if_neg hne]
  simp only [hguess, hscale, if_neg hbig, hexponent, roundDiv_mul _ hd]
  obtain ⟨k, rfl⟩ := Nat.exists_eq_add_of_lt hf
  have hfield : (((0 + k + 1 : Nat) : Int) - 1075 + 1074).toNat = k := by omega
  have hinf : infinityBits = 2047 * 2 ^ 52 := rfl
  have hle : (k + 2) * 2 ^ 52 ≤ 2047 * 2 ^ 52 := Nat.mul_le_mul_right _ (by omega)
  rw [hfield, hinf, show Nat.pow 2 52 = 2 ^ 52 from rfl]
  rw [Nat.add_mul] at hle
  rw [Nat.zero_add, Nat.add_mul]
  generalize 2 ^ 52 = unit at hle hq ⊢
  omega

/-! ## Coordinates -/

section

variable {α : Type} [Scalar α]

/-- An integer that is written is read as the nearest number, if it has one. -/
theorem coordinateOf_toString {n : Int}
    (h : ∀ limit ∈ Scalar.digitLimit α, 0 < limit ∧ n.natAbs < 10 ^ limit) :
    Grammar.Reader.coordinateOf (α := α) (toString n) =
      match Scalar.ofInt? n with
      | some x => .ok x
      | none => .error .coordinateTooLarge := by
  have hlength : ¬ (Scalar.digitLimit α).any
      (· < ((Nat.toDigits 10 n.natAbs).map fun c => c.toNat - 48).length) = true := by
    rw [Option.any_eq_true]
    rintro ⟨limit, hlimit, hlt⟩
    obtain ⟨hpos, hsmall⟩ := h limit hlimit
    have hle := (Nat.length_toDigits_le_iff (by decide) hpos).mpr hsmall
    rw [List.length_map, decide_eq_true_eq] at hlt
    omega
  have hsign : (if decide (n < 0) = true then -(n.natAbs : Int) else n.natAbs) = n := by
    split <;> rename_i hn <;> simp only [decide_eq_true_eq] at hn <;> omega
  rw [Grammar.Reader.coordinateOf, Text.signedDigits?_toString]
  cases hof : Scalar.ofInt? (α := α) n <;>
    simp only [if_neg hlength, Text.digitsValue_toDigits, hsign, hof]

end

/-- The double is finite and a whole number. -/
def IsWhole (x : Float) : Prop :=
  ∃ negative significand exponent n,
    Binary64.ofFloat x = .finite negative significand exponent ∧ IsScaled significand exponent n

instance : DecidablePred IsWhole := fun x =>
  match hx : Binary64.ofFloat x with
  | .finite negative s e =>
    decidable_of_iff (2 ^ (-e).toNat ∣ s * 2 ^ e.toNat) <| by
      constructor
      · rintro ⟨n, hn⟩
        exact ⟨negative, s, e, n, hx, hn.trans (Nat.mul_comm ..)⟩
      · rintro ⟨_, _, _, n, hx', hn⟩
        cases hx.symm.trans hx'
        exact ⟨n, hn.trans (Nat.mul_comm ..)⟩
  | .infinite _ => .isFalse fun ⟨_, _, _, _, hx', _⟩ => nomatch hx.symm.trans hx'
  | .nan => .isFalse fun ⟨_, _, _, _, hx', _⟩ => nomatch hx.symm.trans hx'

/-- The double, where zero has no sign. -/
def unsignedZero (x : Float) : Float :=
  match Binary64.ofFloat x with
  | .finite _ 0 _ => Float.ofBits 0
  | _ => x

/-- The fields of a finite double. -/
theorem Binary64.finite_fields {x : Float} {negative : Bool} {significand : Nat} {exponent : Int}
    (h : Binary64.ofFloat x = .finite negative significand exponent) :
    ∃ field fraction, field < 2047 ∧ fraction < 2 ^ 52 ∧
      x.toBits.toNat = (if negative then 2 ^ 63 else 0) + (field * 2 ^ 52 + fraction) ∧
      ((field = 0 ∧ significand = fraction ∧ exponent = -1074) ∨
        (0 < field ∧ significand = 2 ^ 52 + fraction ∧ exponent = (field : Int) - 1075)) := by
  have hlt : x.toBits.toNat < 2 ^ 64 := x.toBits.toNat_lt
  generalize hb : x.toBits.toNat = bits at hlt ⊢
  have hunit : Nat.pow 2 52 = 4503599627370496 := rfl
  have hfields : Nat.pow 2 11 = 2048 := rfl
  have hsign : Nat.pow 2 63 = 9223372036854775808 := rfl
  simp only [Binary64.ofFloat, hb, Binary64.ofBits, hunit, hfields, hsign] at h
  simp only [Nat.reducePow] at hlt ⊢
  have hdigits : bits = (if bits / 9223372036854775808 % 2 == 1 then 9223372036854775808 else 0) +
      (bits / 4503599627370496 % 2048 * 4503599627370496 + bits % 4503599627370496) := by
    split <;> rename_i hs <;> simp only [beq_iff_eq] at hs <;> omega
  have hfield : bits / 4503599627370496 % 2048 < 2048 := Nat.mod_lt _ (by decide)
  have hfraction : bits % 4503599627370496 < 4503599627370496 := Nat.mod_lt _ (by decide)
  refine ⟨bits / 4503599627370496 % 2048, bits % 4503599627370496, ?_⟩
  split at h
  · split at h <;> cases h
  · rename_i htop
    have hbelow : bits / 4503599627370496 % 2048 < 2047 := by omega
    split at h <;> cases h
    · rename_i hzero
      exact ⟨hbelow, hfraction, hdigits, .inl ⟨hzero, rfl, rfl⟩⟩
    · rename_i hzero
      exact ⟨hbelow, hfraction, hdigits, .inr ⟨Nat.pos_of_ne_zero hzero, rfl, rfl⟩⟩

private theorem eq_ofBits {x : Float} {n : Nat} (h : x.toBits.toNat = n) :
    x = Float.ofBits (UInt64.ofNat n) := by
  rw [← h, UInt64.ofNat_toNat, ofBits_toBits]

private theorem nearestInt_of_scaled {x : Float} {negative : Bool} {significand n : Nat}
    {exponent : Int} (h : Binary64.ofFloat x = .finite negative significand exponent)
    (hn : IsScaled significand exponent n) :
    Scalar.nearestInt x = .ok (if negative then -(n : Int) else n) := by
  obtain ⟨d, hd, hscale⟩ := hn.quotient
  change roundFloat x = _
  rw [roundFloat, h]
  simp only [hscale, roundRatio, roundDiv_mul n hd]

/-- An integer below the largest double has few enough digits. -/
theorem limited_digits {n : Int} (h : n.natAbs.log2 < 4300) :
    ∀ limit ∈ Scalar.digitLimit Float, 0 < limit ∧ n.natAbs < 10 ^ limit := by
  intro limit hlimit
  have hmany : 4300 = limit := Option.mem_some.mp hlimit
  refine ⟨hmany ▸ by decide, ?_⟩
  calc n.natAbs < 2 ^ (n.natAbs.log2 + 1) := Nat.lt_log2_self
    _ ≤ 10 ^ (n.natAbs.log2 + 1) := Nat.pow_le_pow_left (by decide) _
    _ ≤ 10 ^ limit := Nat.pow_le_pow_right (by decide) (hmany ▸ h)

/-- A whole double is written as an integer, and read back but for the sign of zero. -/
theorem IsWhole.coordinate {x : Float} (h : IsWhole x) :
    ∃ n, Scalar.nearestInt x = .ok n ∧
      Grammar.Reader.coordinateOf (toString n) = .ok (unsignedZero x) := by
  obtain ⟨negative, significand, exponent, n, hx, hn⟩ := h
  refine ⟨_, nearestInt_of_scaled hx hn, ?_⟩
  obtain ⟨field, fraction, hf, hq, hbits, ⟨rfl, rfl, rfl⟩ | ⟨hpos, rfl, rfl⟩⟩ :=
    Binary64.finite_fields hx
  · obtain ⟨hsig, rfl⟩ := IsScaled.eq_zero (k := 1074) hn hq (by decide)
    have hsame : (if negative then -((0 : Nat) : Int) else (0 : Nat)) = 0 := by
      cases negative <;> rfl
    rw [hsame, coordinateOf_toString (limited_digits (by decide)), unsignedZero, hx,
      hsig]
    rfl
  · have hmag : (if negative then -(n : Int) else n).natAbs = n := by
      cases negative <;> simp
    obtain ⟨hne, hlog⟩ := hn.log2 (by omega) (by omega)
    have hsign : decide ((if negative then -(n : Int) else n) < 0) = negative := by
      cases negative
      · simp
      · simp
        omega
    have hnearest := nearestBits_scaled hpos hf hq hn
    have hfinite : ¬ field * 2 ^ 52 + fraction = infinityBits := by
      have hle : (field + 1) * 2 ^ 52 ≤ 2047 * 2 ^ 52 := Nat.mul_le_mul_right _ hf
      rw [Nat.add_mul] at hle
      have hinf : infinityBits = 2047 * 2 ^ 52 := rfl
      rw [hinf]
      generalize 2 ^ 52 = unit at hle hq ⊢
      omega
    have hread : Scalar.ofInt? (if negative then -(n : Int) else n) = some x := by
      change floatOfInt? _ = _
      rw [floatOfInt?, hmag, hnearest, if_neg hfinite, nearestFloat, hnearest, hsign]
      have hpow : Nat.pow 2 63 = 2 ^ 63 := rfl
      rw [hpow, ← eq_ofBits hbits]
    have hplain : unsignedZero x = x := by
      rw [unsignedZero, hx]
      split
      · rename_i heq
        simp only [Binary64.finite.injEq] at heq
        omega
      · rfl
    have hsmall : (if negative then -(n : Int) else n).natAbs.log2 < 4300 := by
      rw [hmag]
      omega
    rw [coordinateOf_toString (limited_digits hsmall), hread, hplain]

end ComponentDiagram
