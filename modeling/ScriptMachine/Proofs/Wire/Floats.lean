import Mathlib
import ScriptMachine.Wire.Float
/-!
# Floats are their bit patterns

A double is determined by its 64-bit pattern: reading the pattern back gives the double
(`ofBits_toBits`), so two doubles with one pattern are equal, and there is only one NaN. Doubles
compare equal (`==`) when they are the same number or both zeros, so on doubles that are neither
NaN nor negative zero `==` is equality (`beq_iff_eq_of_plain`). On top of this, the narrower
formats: a pattern of a format fits its width (`Narrow.narrow_lt`), and a
double the format holds reads back from its pattern (`Narrow.value_narrow`).
-/

namespace ScriptMachine.Wire

open Float.Model Float.Model.UnpackedFloat

/-! ## The three fields of a double -/

private theorem sign_ofBitVec_toBitVec (bit : BitVec 1) : (Sign.ofBitVec bit).toBitVec = bit := by
  have hb := bit.isLt
  by_cases hz : bit = 0#1
  · subst hz; rfl
  · have ho : bit = 1#1 := by
      apply BitVec.eq_of_toNat_eq
      have hp : bit.toNat ≠ 0 := fun h => hz (BitVec.eq_of_toNat_eq h)
      change bit.toNat = 1
      omega
    subst ho; rfl

private theorem packComponents_unpack (b : BitVec 64) :
    packComponents Format.binary64 (Sign.ofBitVec (@unpackSign Format.binary64 b))
      (@unpackExponent Format.binary64 b) (@unpackMantissa Format.binary64 b) =
      b := by
  unfold packComponents
  rw [sign_ofBitVec_toBitVec]
  apply BitVec.eq_of_toNat_eq
  have hb := b.isLt
  have hsign : (@unpackSign Format.binary64 b).toNat = b.toNat / 2 ^ 63 := by
    change (b.toNat >>> 63) % 2 = _
    rw [Nat.shiftRight_eq_div_pow, Nat.mod_eq_of_lt (by omega)]
  have hexp : (@unpackExponent Format.binary64 b).toNat = b.toNat / 2 ^ 52 % 2 ^ 11 := by
    change (b.toNat >>> 52) % 2 ^ 11 = _
    rw [Nat.shiftRight_eq_div_pow]
  have hfrac : (@unpackMantissa Format.binary64 b).toNat = b.toNat % 2 ^ 52 := by
    change (b.toNat >>> 0) % 2 ^ 52 = _
    rw [Nat.shiftRight_zero]
  rw [BitVec.toNat_append, BitVec.toNat_append, hsign, hexp, hfrac,
    ← Nat.shiftLeft_add_eq_or_of_lt (Nat.mod_lt _ (by decide)),
    ← Nat.shiftLeft_add_eq_or_of_lt (Nat.mod_lt _ (by decide))]
  simp only [Nat.shiftLeft_eq]
  omega

private theorem ofNat_toNat {w : Nat} (x : BitVec w) : BitVec.ofNat w x.toNat = x :=
  BitVec.eq_of_toNat_eq (Nat.mod_eq_of_lt x.isLt)

private theorem pack_unpack (b : BitVec 64) (hv : Format.binary64.Valid b) :
    pack Format.binary64 (UnpackedFloat.unpack Format.binary64 b) = b := by
  have hdec := packComponents_unpack b
  have hm : (@unpackMantissa Format.binary64 b).toNat < 2 ^ 52 :=
    (@unpackMantissa Format.binary64 b).isLt
  have he : (@unpackExponent Format.binary64 b).toNat < 2 ^ 11 :=
    (@unpackExponent Format.binary64 b).isLt
  simp only [UnpackedFloat.unpack]
  split_ifs with hinf hzm hzero hsub
  · -- infinity
    rw [hinf, hzm] at hdec
    exact hdec
  · exact (hv.eq_packedNaN hinf hzm).symm
  · -- zero
    rw [hzero, hsub] at hdec
    exact hdec
  · -- subnormal: the fraction is the significand, below the hidden bit
    have hlog : (@unpackMantissa Format.binary64 b).toNat.log2 < 52 :=
      (Nat.log2_lt (fun h => hsub (BitVec.eq_of_toNat_eq h))).2 hm
    have hz : (@unpackExponent Format.binary64 b).toNat = 0 := by rw [hzero]; rfl
    simp only [UnpackedFloat.pack, hz]
    rw [if_neg (by decide), if_neg (by change ¬ _ = 53; omega), ofNat_toNat]
    rw [hzero] at hdec
    exact hdec
  · -- normal: the hidden bit is bit 52 of the significand
    have hne : (@unpackExponent Format.binary64 b).toNat ≠ 2047 :=
      fun h => hinf (BitVec.eq_of_toNat_eq h)
    have hnz : (@unpackExponent Format.binary64 b).toNat ≠ 0 :=
      fun h => hzero (BitVec.eq_of_toNat_eq h)
    have hfull : (1#1 ++ @unpackMantissa Format.binary64 b).toNat =
        2 ^ 52 + (@unpackMantissa Format.binary64 b).toNat := by
      rw [BitVec.toNat_append, ← Nat.shiftLeft_add_eq_or_of_lt hm]
      simp [Nat.shiftLeft_eq]
    have hlog : (2 ^ 52 + (@unpackMantissa Format.binary64 b).toNat).log2 = 52 := by
      rw [Nat.log2_eq_iff (by omega)]
      omega
    have hlow : BitVec.ofNat 52 (2 ^ 52 + (@unpackMantissa Format.binary64 b).toNat) =
        @unpackMantissa Format.binary64 b := by
      apply BitVec.eq_of_toNat_eq
      simp only [BitVec.toNat_ofNat]
      omega
    simp only [UnpackedFloat.pack, hfull, hlog, hlow]
    rw [if_pos (show 52 + 1 = Format.binary64.mantissaBits from rfl),
      if_neg (by change ¬ 2048 ≤ (_ - ((1023 : Int) + 52) + 1023 + 52).toNat + 1; omega)]
    convert hdec using 2
    apply BitVec.eq_of_toNat_eq
    change (_ - ((1023 : Int) + 52) + 1023 + 52).toNat % 2 ^ 11 = _
    omega

/-! ## Doubles and their patterns -/

theorem ofBits_toBits (x : Float) : Float.ofBits x.toBits = x := by
  rcases x with ⟨⟨bits, valid⟩⟩
  show Float.ofModel (Float.Model.ofBits bits) = ⟨⟨bits, valid⟩⟩
  simp only [Float.Model.ofBits, Float.Model.pack, Float.ofModel.injEq, Float.Model.mk.injEq]
  exact UInt64.toBitVec_inj.mp (pack_unpack bits.toBitVec valid)

theorem toBits_ofBits {b : UInt64} (hv : Format.binary64.Valid b.toBitVec) :
    (Float.ofBits b).toBits = b := by
  show UInt64.ofBitVec (pack Format.binary64 (UnpackedFloat.unpack Format.binary64 b.toBitVec)) = b
  rw [pack_unpack _ hv]

theorem eq_of_toBits_eq {x y : Float} (h : x.toBits = y.toBits) : x = y := by
  rw [← ofBits_toBits x, h, ofBits_toBits]

theorem toBits_of_isNaN {x : Float} (h : x.isNaN = true) : x.toBits = 0x7FF8000000000000 := by
  rcases x with ⟨⟨bits, valid⟩⟩
  change (UnpackedFloat.unpack Format.binary64 bits.toBitVec).isNaN = true at h
  simp only [UnpackedFloat.unpack] at h
  split_ifs at h with hinf hzm
  all_goals try simp [UnpackedFloat.isNaN] at h
  show bits = _
  apply UInt64.toBitVec_inj.mp
  rw [valid.eq_packedNaN hinf hzm]
  rfl

/-! ## Equal doubles -/

theorem unpacked_compare_eq_eq {u v : UnpackedFloat} :
    u.compare v = some .eq ↔ (u = v ∧ u.isNaN = false) ∨ ∃ s t, u = .zero s ∧ v = .zero t := by
  cases u with
  | notANumber => simp [UnpackedFloat.compare, UnpackedFloat.isNaN]
  | infinity s =>
    cases v with
    | infinity t => cases s <;> cases t <;> simp [UnpackedFloat.compare, UnpackedFloat.isNaN] <;> decide
    | notANumber => simp [UnpackedFloat.compare]
    | zero t => cases s <;> simp [UnpackedFloat.compare]
    | finite t m e hm => cases s <;> simp [UnpackedFloat.compare]
  | zero s =>
    cases v with
    | infinity t => cases t <;> simp [UnpackedFloat.compare]
    | notANumber => simp [UnpackedFloat.compare]
    | zero t => simp [UnpackedFloat.compare]
    | finite t m e hm => cases t <;> simp [UnpackedFloat.compare]
  | finite s m e hm =>
    cases v with
    | infinity t => cases t <;> simp [UnpackedFloat.compare]
    | notANumber => simp [UnpackedFloat.compare]
    | zero t => cases s <;> simp [UnpackedFloat.compare]
    | finite t m' e' hm' =>
      -- same sign: equal exponents and equal significands
      cases s <;> cases t <;>
        simp [UnpackedFloat.compare, UnpackedFloat.isNaN, Ordering.then_eq_eq, and_comm]

theorem ofModel_pack_unpack (x : Float) : Float.ofModel (Float.Model.pack x.toModel.unpack) = x :=
  ofBits_toBits x

theorem zero_sign_of_toBits {x : Float} {s : UnpackedFloat.Sign} (hz : x.toModel.unpack = .zero s)
    (hx : x.toBits ≠ 0x8000000000000000) : s = .positive := by
  cases s with
  | positive => rfl
  | negative =>
    refine absurd ?_ hx
    rw [← ofModel_pack_unpack x, hz]
    decide

/-- On doubles that are neither NaN nor negative zero, `==` is equality. -/
theorem beq_iff_eq_of_plain {x y : Float} (hx : x.isNaN = false) (hy : y.isNaN = false)
    (hx0 : x.toBits ≠ 0x8000000000000000) (hy0 : y.toBits ≠ 0x8000000000000000) :
    (x == y) = true ↔ x = y := by
  have hcmp : (x == y) = true ↔ x.toModel.unpack.compare y.toModel.unpack = some .eq := by
    change (_ == some Ordering.eq) = true ↔ _
    simp
  rw [hcmp, unpacked_compare_eq_eq]
  constructor
  · rintro (⟨he, -⟩ | ⟨s, t, hs, ht⟩)
    · rw [← ofModel_pack_unpack x, he, ofModel_pack_unpack]
    · -- two zeros, neither of them negative
      rw [← ofModel_pack_unpack x, ← ofModel_pack_unpack y, hs, ht, zero_sign_of_toBits hs hx0,
        zero_sign_of_toBits ht hy0]
  · rintro rfl
    exact .inl ⟨rfl, hx⟩

/-! ## Narrower formats -/

namespace Narrow

variable (f : Narrow)

theorem pow_body : Nat.pow 2 f.body = f.top * Nat.pow 2 f.fraction + Nat.pow 2 f.fraction := by
  have h := Nat.two_pow_pos f.exponent
  simp only [body, top, Nat.pow_eq, Nat.pow_add]
  rw [← Nat.succ_mul, Nat.succ_eq_add_one, Nat.sub_add_cancel h]

/-- A pattern written for a double fits the format's width: the part below the sign bit is
below `2 ^ body` in every case, and the sign adds one bit on top. -/
theorem narrow_lt (hf : f.fraction ≤ 52) (x : Float) : f.narrow x < 2 * Nat.pow 2 f.body := by
  have hbits : x.toBits.toNat < 2 ^ 64 := x.toBits.toNat_lt
  have hsign : x.toBits.toNat / Nat.pow 2 63 ≤ 1 := by simp only [Nat.pow_eq]; omega
  have hbody := f.pow_body
  have hunit := Nat.two_pow_pos f.fraction
  simp only [Nat.pow_eq] at hbody hunit hsign ⊢
  -- the fraction of a double, cut to the format's width, is below one exponent step
  have hcut : x.toBits.toNat % 2 ^ 52 / 2 ^ (52 - f.fraction) < 2 ^ f.fraction := by
    rw [Nat.div_lt_iff_lt_mul (Nat.two_pow_pos _), ← Nat.pow_add, Nat.add_sub_cancel' hf]
    exact Nat.mod_lt _ (Nat.two_pow_pos 52)
  have hsign' : x.toBits.toNat / 2 ^ 63 * 2 ^ f.body ≤ 2 ^ f.body := by
    simpa using Nat.mul_le_mul_right (2 ^ f.body) hsign
  simp only [narrow, Nat.pow_eq, beq_iff_eq]
  split_ifs with hinf hzm hover hnormal hzero
  · omega
  · have := Nat.div_lt_self hunit (by decide : 1 < 2)
    omega
  · omega
  · -- a normal pattern: its biased exponent is below `top`
    have hstep : (x.toBits.toNat / 2 ^ 52 % 2048 + f.bias - 1023) * 2 ^ f.fraction + 2 ^ f.fraction
        ≤ f.top * 2 ^ f.fraction := by
      rw [← Nat.succ_mul]
      exact Nat.mul_le_mul_right _ (by omega)
    omega
  · omega
  · -- a subnormal pattern: the significand shifted right by at least `53 - fraction`
    have hshift : 2 ^ (53 - f.fraction) ≤ 2 ^ (1076 - f.bias - f.fraction -
        x.toBits.toNat / 2 ^ 52 % 2048) := Nat.pow_le_pow_right (by decide) (by omega)
    have hsmall : (2 ^ 52 + x.toBits.toNat % 2 ^ 52) / 2 ^ (53 - f.fraction) < 2 ^ f.fraction := by
      rw [Nat.div_lt_iff_lt_mul (Nat.two_pow_pos _), ← Nat.pow_add, Nat.add_sub_cancel' (by omega)]
      have := Nat.mod_lt x.toBits.toNat (Nat.two_pow_pos 52)
      omega
    have := Nat.div_le_div_left (a := 2 ^ 52 + x.toBits.toNat % 2 ^ 52) hshift
      (Nat.two_pow_pos (53 - f.fraction))
    omega

/-- A double the format holds reads back from its pattern. -/
theorem value_narrow {x : Float} (h : f.holds x = true) : f.value (f.narrow x) = x :=
  eq_of_toBits_eq (beq_iff_eq.mp h)

end Narrow

end ScriptMachine.Wire
