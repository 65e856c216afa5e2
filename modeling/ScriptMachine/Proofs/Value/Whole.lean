import Mathlib
import ScriptMachine.Numeric.Arith
import ScriptMachine.Proofs.Wire.Floats
/-!
# Whole doubles

A double stands for a rational number `±m · 2^e` or zero (`Numeric.value?`), or it is an
infinity or NaN; it is whole (`IsWhole`) when that number is an integer. This file reads the
truncations of the arithmetic module against the number a double stands for.
-/

namespace ScriptMachine.Numeric

open Float.Model Float.Model.UnpackedFloat

variable {x : Float}

/-! ## The fields of a pattern -/

theorem unpackSign_toNat (b : BitVec 64) :
    (@unpackSign Format.binary64 b).toNat = b.toNat / 2 ^ 63 := by
  have hb := b.isLt
  change (b.toNat >>> 63) % 2 = _
  rw [Nat.shiftRight_eq_div_pow, Nat.mod_eq_of_lt (by omega)]

theorem unpackExponent_toNat (b : BitVec 64) :
    (@unpackExponent Format.binary64 b).toNat = b.toNat / 2 ^ 52 % 2048 := by
  change (b.toNat >>> 52) % 2 ^ 11 = _
  rw [Nat.shiftRight_eq_div_pow]

theorem unpackMantissa_toNat (b : BitVec 64) :
    (@unpackMantissa Format.binary64 b).toNat = b.toNat % 2 ^ 52 := by
  change (b.toNat >>> 0) % 2 ^ 52 = _
  rw [Nat.shiftRight_zero]

theorem fields_eq (x : Float) : fields x =
    (x.toBits.toNat / 2 ^ 63 == 1, x.toBits.toNat / 2 ^ 52 % 2048, x.toBits.toNat % 2 ^ 52) := by
  simp [fields, Nat.pow_eq]

theorem fields_exponent (x : Float) : (fields x).2.1 = x.toBits.toNat / 2 ^ 52 % 2048 := by
  rw [fields_eq]

theorem fields_exponent_lt (x : Float) : (fields x).2.1 < 2048 := by
  rw [fields_eq]; exact Nat.mod_lt _ (by decide)

theorem fields_fraction_lt (x : Float) : (fields x).2.2 < 2 ^ 52 := by
  rw [fields_eq]; exact Nat.mod_lt _ (by decide)

/-! ## Unpacking by fields -/

def signOf (x : Float) : Sign := if (fields x).1 then .negative else .positive

theorem sign_unpack (x : Float) :
    Sign.ofBitVec (@unpackSign Format.binary64 x.toBits.toBitVec) = signOf x := by
  have hs := unpackSign_toNat x.toBits.toBitVec
  have hb := x.toBits.toBitVec.isLt
  simp only [UInt64.toNat_toBitVec] at hs hb
  unfold Sign.ofBitVec signOf
  rw [fields_eq]
  by_cases h0 : x.toBits.toNat / 2 ^ 63 = 1
  · have : @unpackSign Format.binary64 x.toBits.toBitVec ≠ 0#1 := fun h => by
      rw [h] at hs; simp at hs; omega
    simpa [this] using h0
  · have : @unpackSign Format.binary64 x.toBits.toBitVec = 0#1 := by
      apply BitVec.eq_of_toNat_eq; simp; omega
    simpa [this] using h0

theorem unpack_def (x : Float) :
    x.toModel.unpack = UnpackedFloat.unpack Format.binary64 x.toBits.toBitVec := rfl

theorem exponent_toNat (x : Float) :
    (@unpackExponent Format.binary64 x.toBits.toBitVec).toNat = (fields x).2.1 := by
  rw [unpackExponent_toNat, fields_eq]
  rfl

theorem mantissa_toNat (x : Float) :
    (@unpackMantissa Format.binary64 x.toBits.toBitVec).toNat = (fields x).2.2 := by
  rw [unpackMantissa_toNat, fields_eq]
  rfl

theorem exponent_eq_top_iff (x : Float) :
    @unpackExponent Format.binary64 x.toBits.toBitVec = -1#11 ↔ (fields x).2.1 = 2047 := by
  rw [← exponent_toNat, ← BitVec.toNat_inj]
  rfl

theorem exponent_eq_zero_iff (x : Float) :
    @unpackExponent Format.binary64 x.toBits.toBitVec = 0#11 ↔ (fields x).2.1 = 0 := by
  rw [← exponent_toNat, ← BitVec.toNat_inj]
  rfl

theorem mantissa_eq_zero_iff (x : Float) :
    @unpackMantissa Format.binary64 x.toBits.toBitVec = 0#52 ↔ (fields x).2.2 = 0 := by
  rw [← mantissa_toNat, ← BitVec.toNat_inj]
  rfl

/-- A pattern with every exponent bit set and a fraction is NaN. -/
theorem unpack_of_nan (he : (fields x).2.1 = 2047) (hf : (fields x).2.2 ≠ 0) :
    x.toModel.unpack = .notANumber := by
  rw [unpack_def]
  unfold UnpackedFloat.unpack
  simp only [(exponent_eq_top_iff x).2 he, (mantissa_eq_zero_iff x).not.2 hf]
  rfl

/-- A pattern with every exponent bit set and no fraction is an infinity. -/
theorem unpack_of_infinity (he : (fields x).2.1 = 2047) (hf : (fields x).2.2 = 0) :
    x.toModel.unpack = .infinity (signOf x) := by
  rw [unpack_def]
  unfold UnpackedFloat.unpack
  simp only [(exponent_eq_top_iff x).2 he, (mantissa_eq_zero_iff x).2 hf, sign_unpack]
  rfl

/-- A pattern with no exponent bit and no fraction is a zero. -/
theorem unpack_of_zero (he : (fields x).2.1 = 0) (hf : (fields x).2.2 = 0) :
    x.toModel.unpack = .zero (signOf x) := by
  rw [unpack_def]
  unfold UnpackedFloat.unpack
  simp only [(exponent_eq_zero_iff x).2 he, (mantissa_eq_zero_iff x).2 hf, sign_unpack]
  rfl

theorem decompose_eq (x : Float) : decompose x =
    ((fields x).1, if (fields x).2.1 = 0 then (fields x).2.2 else (fields x).2.2 + 2 ^ 52,
      if (fields x).2.1 = 0 then -1074 else ((fields x).2.1 : Int) - 1075) := by
  unfold decompose
  by_cases h : (fields x).2.1 = 0 <;> simp [h, Nat.pow_eq]

theorem unpack_of_finite (he : (fields x).2.1 ≠ 2047) (hz : (fields x).2.1 ≠ 0 ∨ (fields x).2.2 ≠ 0) :
    ∃ hm, x.toModel.unpack = .finite (signOf x) (decompose x).2.1 (decompose x).2.2 hm := by
  rw [unpack_def, decompose_eq]
  unfold UnpackedFloat.unpack
  simp only [(exponent_eq_top_iff x).not.2 he, sign_unpack, if_false]
  by_cases h0 : (fields x).2.1 = 0
  · have hf : (fields x).2.2 ≠ 0 := by omega
    simp only [(exponent_eq_zero_iff x).2 h0, (mantissa_eq_zero_iff x).not.2 hf, h0, if_true,
      mantissa_toNat]
    exact ⟨by omega, rfl⟩
  · -- a normal double: the hidden bit stands above the fraction
    have hfull : (1#1 ++ @unpackMantissa Format.binary64 x.toBits.toBitVec).toNat =
        (fields x).2.2 + 2 ^ 52 := by
      rw [BitVec.toNat_append, mantissa_toNat, ← Nat.shiftLeft_add_eq_or_of_lt (fields_fraction_lt x)]
      simp [Nat.shiftLeft_eq]
      omega
    simp only [(exponent_eq_zero_iff x).not.2 h0, h0, if_false, hfull, exponent_toNat]
    exact ⟨by omega, rfl⟩

theorem finite_congr {s s' : Sign} {m m' : Nat} {e e' : Int} {hm : 0 < m} {hm' : 0 < m'}
    (hs : s = s') (h1 : m = m') (h2 : e = e') :
    UnpackedFloat.finite s m e hm = .finite s' m' e' hm' := by
  subst hs h1 h2
  rfl

/-- A normal double: the hidden bit above the fraction, the exponent unbiased. -/
theorem unpack_of_normal (h0 : (fields x).2.1 ≠ 0) (h : (fields x).2.1 ≠ 2047) :
    ∃ hm, x.toModel.unpack =
      .finite (signOf x) ((fields x).2.2 + 2 ^ 52) ((fields x).2.1 - 1075) hm := by
  obtain ⟨hm, hu⟩ := unpack_of_finite (x := x) h (.inl h0)
  have hd := decompose_eq x
  simp only [h0, if_false] at hd
  exact ⟨by omega, hu.trans (finite_congr rfl (congrArg (·.2.1) hd) (congrArg (·.2.2) hd))⟩

/-- A subnormal double: the fraction alone, at the least exponent. -/
theorem unpack_of_subnormal (h0 : (fields x).2.1 = 0) (hf : (fields x).2.2 ≠ 0) :
    ∃ hm, x.toModel.unpack = .finite (signOf x) (fields x).2.2 (-1074) hm := by
  obtain ⟨hm, hu⟩ := unpack_of_finite (x := x) (by omega) (.inr hf)
  have hd := decompose_eq x
  simp only [h0, if_true] at hd
  exact ⟨by omega, hu.trans (finite_congr rfl (congrArg (·.2.1) hd) (congrArg (·.2.2) hd))⟩

theorem exponent_top_of_not_finite
    (h : (∃ s, x.toModel.unpack = .infinity s) ∨ x.toModel.unpack = .notANumber) :
    (fields x).2.1 = 2047 := by
  by_contra htop
  by_cases hz : (fields x).2.1 = 0 ∧ (fields x).2.2 = 0
  · rw [unpack_of_zero hz.1 hz.2] at h
    simp at h
  · obtain ⟨hm, hu⟩ := unpack_of_finite (x := x) htop (by omega)
    rw [hu] at h
    simp at h

theorem isNaN_iff_unpack : x.isNaN = true ↔ x.toModel.unpack = .notANumber := by
  change x.toModel.unpack.isNaN = true ↔ _
  cases x.toModel.unpack <;> simp [UnpackedFloat.isNaN]

theorem isInf_iff_unpack : x.isInf = true ↔ ∃ s, x.toModel.unpack = .infinity s := by
  change x.toModel.unpack.isInf = true ↔ _
  cases x.toModel.unpack <;> simp [UnpackedFloat.isInf]

theorem isInf_of_finite {s : Sign} {m : Nat} {e : Int} {hm : 0 < m}
    (hu : x.toModel.unpack = .finite s m e hm) : x.isInf = false := by
  rw [Bool.eq_false_iff, ne_eq, isInf_iff_unpack, hu]
  simp

/-! ## The number a double stands for -/

theorem apply_dvd_iff {k m : Nat} (s : Sign) : (2 : ℤ) ^ k ∣ s.apply m ↔ 2 ^ k ∣ m := by
  cases s <;> simp [Sign.apply, Int.natCast_dvd_natCast.symm]

theorem isInt_div_iff {n : ℤ} {k : Nat} :
    (∃ j : ℤ, (n : ℚ) * 2 ^ (-(k : ℤ)) = j) ↔ (2 : ℤ) ^ k ∣ n := by
  have hpos : (2 : ℚ) ^ k ≠ 0 := pow_ne_zero _ (by norm_num)
  rw [zpow_neg, zpow_natCast]
  constructor
  · rintro ⟨j, hj⟩
    refine ⟨j, ?_⟩
    have : (n : ℚ) = j * 2 ^ k := by
      field_simp at hj
      linarith
    exact_mod_cast (this.trans (mul_comm _ _))
  · rintro ⟨c, rfl⟩
    refine ⟨c, ?_⟩
    push_cast
    field_simp

theorem isInt_mul_pow {n : ℤ} {e : ℤ} (he : 0 ≤ e) : ∃ j : ℤ, (n : ℚ) * 2 ^ e = j :=
  ⟨n * 2 ^ e.toNat, by
    push_cast
    rw [← zpow_natCast, Int.toNat_of_nonneg he]⟩

/-- The rational number an unpacked double stands for; none for the infinities and NaN. -/
def unpackedValue? : UnpackedFloat → Option ℚ
  | .zero _ => some 0
  | .finite s m e _ => some ((s.apply m : ℚ) * 2 ^ e)
  | _ => none

/-- The rational number a double stands for in Lean's model of doubles: `±m · 2^e`, or `0`.
The infinities and NaN stand for none. -/
def value? (x : Float) : Option ℚ := unpackedValue? x.toModel.unpack

def IsWhole (x : Float) : Prop := ∃ j : ℤ, value? x = some (j : ℚ)

theorem value?_of_finite {s : Sign} {m : Nat} {e : Int} {hm : 0 < m}
    (hu : x.toModel.unpack = .finite s m e hm) : value? x = some ((s.apply m : ℚ) * 2 ^ e) := by
  simp [value?, hu, unpackedValue?]

theorem exponent_ne_top {q : ℚ} (hq : value? x = some q) : (fields x).2.1 ≠ 2047 := by
  intro htop
  by_cases hf : (fields x).2.2 = 0
  · simp [value?, unpack_of_infinity htop hf, unpackedValue?] at hq
  · simp [value?, unpack_of_nan htop hf, unpackedValue?] at hq

theorem isWhole_of_finite_iff {s : Sign} {m : Nat} {e : Int} {hm : 0 < m}
    (hu : x.toModel.unpack = .finite s m e hm) : IsWhole x ↔ 0 ≤ e ∨ 2 ^ (-e).toNat ∣ m := by
  unfold IsWhole
  rw [value?_of_finite hu]
  simp only [Option.some.injEq]
  by_cases he : 0 ≤ e
  · exact ⟨fun _ => .inl he, fun _ => isInt_mul_pow he⟩
  · obtain ⟨k, rfl⟩ : ∃ k : ℕ, e = -(k : ℤ) := ⟨(-e).toNat, by omega⟩
    rw [isInt_div_iff, apply_dvd_iff, show (-(-(k : ℤ))).toNat = k by omega]
    constructor
    · exact .inr
    · rintro (h | h)
      · omega
      · exact h

theorem eq_shift_of_value {s : Sign} {m : Nat} {e : Int} {hm : 0 < m} {j : ℤ}
    (hu : x.toModel.unpack = .finite s m e hm) (hj : value? x = some (j : ℚ)) :
    j = s.apply ((if 0 ≤ e then m * 2 ^ e.toNat else m / 2 ^ (-e).toNat : Nat) : Int) := by
  rw [value?_of_finite hu, Option.some.injEq] at hj
  have h2 : (2 : ℚ) ≠ 0 := by norm_num
  by_cases he : 0 ≤ e
  · rw [if_pos he]
    rw [← Int.toNat_of_nonneg he, zpow_natCast] at hj
    have : ((s.apply (m * 2 ^ e.toNat) : ℤ) : ℚ) = j := by
      cases s <;> simp [Sign.apply] at hj ⊢ <;> linarith
    exact_mod_cast this.symm
  · rw [if_neg he]
    obtain ⟨k, rfl⟩ : ∃ k : ℕ, e = -(k : ℤ) := ⟨(-e).toNat, by omega⟩
    rw [show (-(-(k : ℤ))).toNat = k by omega]
    rw [zpow_neg, zpow_natCast] at hj
    -- the significand is `j · 2^k`, so dividing by `2^k` gives `j` back
    have hmul : ((s.apply m : ℤ) : ℚ) = j * 2 ^ k := by
      field_simp at hj
      linarith
    have hmul' : s.apply m = j * 2 ^ k := by exact_mod_cast hmul
    cases s with
    | positive =>
      simp only [Sign.apply] at hmul' ⊢
      push_cast
      rw [hmul', Int.mul_ediv_cancel _ (by positivity)]
    | negative =>
      simp only [Sign.apply] at hmul' ⊢
      have hm' : (m : ℤ) = -j * 2 ^ k := by linarith
      push_cast
      rw [hm', Int.mul_ediv_cancel _ (by positivity), Int.neg_neg]

theorem finite_of_lt_one (h : (fields x).2.1 < 1023) (hz : ¬((fields x).2.1 = 0 ∧ (fields x).2.2 = 0)) :
    ∃ m e hm, x.toModel.unpack = .finite (signOf x) m e hm ∧ e < 0 ∧ m < 2 ^ (-e).toNat := by
  by_cases h0 : (fields x).2.1 = 0
  · obtain ⟨hm, hu⟩ := unpack_of_subnormal h0 (by omega)
    refine ⟨_, _, hm, hu, by omega, ?_⟩
    have := fields_fraction_lt x
    calc (fields x).2.2 < 2 ^ 52 := this
      _ ≤ 2 ^ (-(-1074 : Int)).toNat := Nat.pow_le_pow_right (by decide) (by decide)
  · obtain ⟨hm, hu⟩ := unpack_of_normal h0 (by omega)
    refine ⟨_, _, hm, hu, by omega, ?_⟩
    have := fields_fraction_lt x
    calc (fields x).2.2 + 2 ^ 52 < 2 ^ 53 := by omega
      _ ≤ 2 ^ (-(((fields x).2.1 : Int) - 1075)).toNat :=
        Nat.pow_le_pow_right (by decide) (by omega)

theorem not_isWhole_of_lt_one {s : Sign} {m : Nat} {e : Int} {hm : 0 < m}
    (hu : x.toModel.unpack = .finite s m e hm) (he : e < 0) (hlt : m < 2 ^ (-e).toNat) :
    ¬ IsWhole x := by
  rw [isWhole_of_finite_iff hu]
  rintro (h | h)
  · omega
  · exact absurd (Nat.le_of_dvd hm h) (by omega)

/-! ## Truncation -/

theorem valid_of_exponent {n : Nat} (hn : n < 2 ^ 64) (he : n / 2 ^ 52 % 2048 ≠ 2047) :
    Format.binary64.Valid (UInt64.ofNat n).toBitVec := by
  refine ⟨fun htop _ => absurd ?_ he⟩
  have h := congrArg BitVec.toNat htop
  rw [unpackExponent_toNat, UInt64.toNat_toBitVec, UInt64.toNat_ofNat', Nat.mod_eq_of_lt hn] at h
  exact h

theorem fields_ofBits {n : Nat} (hn : n < 2 ^ 64) (he : n / 2 ^ 52 % 2048 ≠ 2047) :
    fields (Float.ofBits (UInt64.ofNat n)) = (n / 2 ^ 63 == 1, n / 2 ^ 52 % 2048, n % 2 ^ 52) := by
  rw [fields_eq, ScriptMachine.Wire.toBits_ofBits (valid_of_exponent hn he), UInt64.toNat_ofNat',
    Nat.mod_eq_of_lt hn]

theorem clear_div {n k j : Nat} (hkj : k ≤ j) : (n - n % 2 ^ k) / 2 ^ j = n / 2 ^ j := by
  have hsplit := Nat.div_add_mod n (2 ^ k)
  have hn : n - n % 2 ^ k = 2 ^ k * (n / 2 ^ k) := by omega
  have hpow : 2 ^ j = 2 ^ k * 2 ^ (j - k) := by rw [← Nat.pow_add, Nat.add_sub_cancel' hkj]
  rw [hn, hpow, Nat.mul_div_mul_left _ _ (Nat.two_pow_pos k), Nat.div_div_eq_div_mul]

theorem clear_mod {n k j : Nat} (hkj : k ≤ j) :
    (n - n % 2 ^ k) % 2 ^ j = n % 2 ^ j - n % 2 ^ j % 2 ^ k := by
  have hdvd : 2 ^ k ∣ 2 ^ j := Nat.pow_dvd_pow 2 hkj
  have hr : n % 2 ^ k = n % 2 ^ j % 2 ^ k := (Nat.mod_mod_of_dvd n hdvd).symm
  have hsplit := Nat.div_add_mod n (2 ^ j)
  have hle : n % 2 ^ j % 2 ^ k ≤ n % 2 ^ j := Nat.mod_le _ _
  have hlt : n % 2 ^ j < 2 ^ j := Nat.mod_lt _ (Nat.two_pow_pos j)
  rw [hr]
  have hn : n - n % 2 ^ j % 2 ^ k = (n % 2 ^ j - n % 2 ^ j % 2 ^ k) + 2 ^ j * (n / 2 ^ j) := by
    omega
  rw [hn, Nat.add_mul_mod_self_left, Nat.mod_eq_of_lt (by omega)]

theorem fields_clear {n k : Nat} (hn : n < 2 ^ 64) (hk : k ≤ 52) (he : n / 2 ^ 52 % 2048 ≠ 2047) :
    fields (Float.ofBits (UInt64.ofNat (n - n % 2 ^ k))) =
      (n / 2 ^ 63 == 1, n / 2 ^ 52 % 2048, n % 2 ^ 52 - n % 2 ^ 52 % 2 ^ k) := by
  have h52 : (n - n % 2 ^ k) / 2 ^ 52 = n / 2 ^ 52 := clear_div hk
  rw [fields_ofBits (by omega) (by rw [h52]; exact he), clear_div (by omega), h52, clear_mod hk]

theorem truncate_of_large (h : 1075 ≤ (fields x).2.1) : truncate x = x := by
  simp only [truncate]
  rw [if_pos h]

theorem truncate_of_small (h : (fields x).2.1 < 1075) :
    truncate x = Float.ofBits (UInt64.ofNat (x.toBits.toNat - x.toBits.toNat %
      2 ^ (if (fields x).2.1 < 1023 then 63 else 1075 - (fields x).2.1))) := by
  simp only [truncate]
  rw [if_neg (by omega)]
  split_ifs <;> simp [Nat.pow_eq]

theorem truncate_unpack_of_lt_one (h : (fields x).2.1 < 1023) :
    (truncate x).toModel.unpack = .zero (signOf x) := by
  have hn : x.toBits.toNat < 2 ^ 64 := x.toBits.toNat_lt
  have hE : x.toBits.toNat / 2 ^ 52 % 2048 < 1023 := by rwa [fields_eq] at h
  rw [truncate_of_small (by omega), if_pos h]
  set y := Float.ofBits (UInt64.ofNat (x.toBits.toNat - x.toBits.toNat % 2 ^ 63))
  -- only the sign bit is left
  have hy : fields y = (x.toBits.toNat / 2 ^ 63 == 1, 0, 0) := by
    have h63 := clear_div (n := x.toBits.toNat) (le_refl 63)
    have hlow := Nat.div_add_mod x.toBits.toNat (2 ^ 63)
    have hy' : x.toBits.toNat - x.toBits.toNat % 2 ^ 63 = 2 ^ 63 * (x.toBits.toNat / 2 ^ 63) := by
      omega
    rw [fields_ofBits (by omega) (by rw [hy']; omega), h63, hy']
    simp only [Prod.mk.injEq, true_and]
    constructor <;> omega
  have hsign : signOf y = signOf x := by
    unfold signOf
    rw [hy, fields_eq x]
  rw [← hsign]
  exact unpack_of_zero (by rw [hy]) (by rw [hy])

theorem truncate_unpack_of_mid (h1 : 1023 ≤ (fields x).2.1) (h2 : (fields x).2.1 < 1075) :
    ∃ hm, (truncate x).toModel.unpack = .finite (signOf x)
      ((fields x).2.2 - (fields x).2.2 % 2 ^ (1075 - (fields x).2.1) + 2 ^ 52)
      ((fields x).2.1 - 1075) hm := by
  have hn : x.toBits.toNat < 2 ^ 64 := x.toBits.toNat_lt
  rw [truncate_of_small h2, if_neg (by omega)]
  set y := Float.ofBits (UInt64.ofNat (x.toBits.toNat - x.toBits.toNat % 2 ^ (1075 - (fields x).2.1)))
  have hy : fields y = ((fields x).1, (fields x).2.1,
      (fields x).2.2 - (fields x).2.2 % 2 ^ (1075 - (fields x).2.1)) := by
    have he : x.toBits.toNat / 2 ^ 52 % 2048 ≠ 2047 := by rw [← fields_exponent]; omega
    rw [fields_clear hn (by omega) he, fields_eq x]
  have hE : (fields y).2.1 = (fields x).2.1 := by rw [hy]
  obtain ⟨hm, hu⟩ := unpack_of_finite (x := y) (by omega) (by omega)
  have hsign : signOf y = signOf x := by unfold signOf; rw [hy]
  have hd : decompose y = ((fields x).1,
      (fields x).2.2 - (fields x).2.2 % 2 ^ (1075 - (fields x).2.1) + 2 ^ 52,
      ((fields x).2.1 : Int) - 1075) := by
    rw [decompose_eq, hy]
    simp only [show ¬ (fields x).2.1 = 0 by omega, if_false]
  exact ⟨by omega, hu.trans (finite_congr hsign (congrArg (·.2.1) hd) (congrArg (·.2.2) hd))⟩

theorem beq_iff_compare {x y : Float} :
    (x == y) = true ↔ x.toModel.unpack.compare y.toModel.unpack = some .eq := by
  change (_ == some Ordering.eq) = true ↔ _
  simp

theorem beq_self_iff : (x == x) = true ↔ x.isNaN = false := by
  rw [beq_iff_compare, ScriptMachine.Wire.unpacked_compare_eq_eq]
  constructor
  · rintro (⟨-, h⟩ | ⟨s, t, hs, -⟩)
    · exact h
    · rw [Bool.eq_false_iff, ne_eq, isNaN_iff_unpack, hs]
      simp
  · intro h
    exact .inl ⟨rfl, h⟩

theorem truncate_beq_of_lt_one (h : (fields x).2.1 < 1023) :
    (truncate x == x) = true ↔ x.isInf = true ∨ IsWhole x := by
  rw [beq_iff_compare, truncate_unpack_of_lt_one h, ScriptMachine.Wire.unpacked_compare_eq_eq]
  by_cases hz : (fields x).2.1 = 0 ∧ (fields x).2.2 = 0
  · have hu := unpack_of_zero hz.1 hz.2
    refine ⟨fun _ => .inr ⟨0, by simp [value?, hu, unpackedValue?]⟩, fun _ => .inr ?_⟩
    exact ⟨signOf x, signOf x, rfl, hu⟩
  · -- a nonzero double below one: normal below the unit, or subnormal
    have hfinite := finite_of_lt_one h hz
    obtain ⟨m, e, hm, hu, he, hlt⟩ := hfinite
    rw [hu, isInf_of_finite hu]
    simp only [reduceCtorEq, false_and, exists_false, and_false, or_self, Bool.false_eq_true,
      false_or, false_iff]
    exact not_isWhole_of_lt_one hu he hlt

theorem truncate_beq_of_mid (h1 : 1023 ≤ (fields x).2.1) (h2 : (fields x).2.1 < 1075) :
    (truncate x == x) = true ↔ x.isInf = true ∨ IsWhole x := by
  obtain ⟨hm', ht⟩ := truncate_unpack_of_mid h1 h2
  obtain ⟨hm, hu⟩ := unpack_of_normal (x := x) (by omega) (by omega)
  rw [isWhole_of_finite_iff hu, isInf_of_finite hu, beq_iff_compare, ht, hu,
    ScriptMachine.Wire.unpacked_compare_eq_eq]
  have hk : (-(((fields x).2.1 : Int) - 1075)).toNat = 1075 - (fields x).2.1 := by omega
  have hdvd : 2 ^ (1075 - (fields x).2.1) ∣ 2 ^ 52 := Nat.pow_dvd_pow 2 (by omega)
  have hle := Nat.mod_le (fields x).2.2 (2 ^ (1075 - (fields x).2.1))
  simp only [hk, UnpackedFloat.finite.injEq, Bool.false_eq_true, false_or, reduceCtorEq,
    false_and, exists_false, or_false, true_and, and_true, UnpackedFloat.isNaN,
    Nat.dvd_add_left hdvd]
  constructor
  · intro h
    exact .inr (Nat.dvd_of_mod_eq_zero (by omega))
  · rintro (h | h)
    · omega
    · rw [Nat.mod_eq_zero_of_dvd h]
      omega

theorem truncate_beq_of_large (h : 1075 ≤ (fields x).2.1) :
    (truncate x == x) = true ↔ x.isInf = true ∨ IsWhole x := by
  rw [truncate_of_large h, beq_self_iff]
  by_cases htop : (fields x).2.1 = 2047
  · by_cases hf : (fields x).2.2 = 0
    · have hu := unpack_of_infinity htop hf
      have hinf : x.isInf = true := (isInf_iff_unpack).2 ⟨_, hu⟩
      have hnan : x.isNaN = false := by
        rw [Bool.eq_false_iff, ne_eq, isNaN_iff_unpack, hu]
        simp
      exact ⟨fun _ => .inl hinf, fun _ => hnan⟩
    · have hu := unpack_of_nan htop hf
      have hnan : x.isNaN = true := (isNaN_iff_unpack).2 hu
      have hinf : x.isInf = false := by
        rw [Bool.eq_false_iff, ne_eq, isInf_iff_unpack, hu]
        simp
      simp only [hnan, hinf, Bool.true_eq_false, Bool.false_eq_true, false_or, false_iff]
      rintro ⟨j, hj⟩
      simp [value?, hu, unpackedValue?] at hj
  · obtain ⟨hm, hu⟩ := unpack_of_normal (x := x) (by omega) htop
    have hnan : x.isNaN = false := by
      rw [Bool.eq_false_iff, ne_eq, isNaN_iff_unpack, hu]
      simp
    refine ⟨fun _ => .inr ((isWhole_of_finite_iff hu).2 (.inl (by omega))), fun _ => hnan⟩

/-- Truncation keeps exactly the infinities and the doubles that stand for integers: these are
the doubles `truncate x == x` accepts. -/
theorem truncate_beq_self (x : Float) :
    (truncate x == x) = true ↔ x.isInf = true ∨ IsWhole x := by
  rcases Nat.lt_or_ge (fields x).2.1 1023 with h | h
  · exact truncate_beq_of_lt_one h
  · rcases Nat.lt_or_ge (fields x).2.1 1075 with h' | h'
    · exact truncate_beq_of_mid h h'
    · exact truncate_beq_of_large h'

/-! ## Truncation to a word -/

theorem truncWord_of_large_exponent (h : 1086 ≤ (fields x).2.1) : truncWord x = Int64.minValue := by
  simp only [truncWord]
  rw [if_pos h]

theorem truncWord_of_small_exponent (h : (fields x).2.1 < 1086) :
    truncWord x = Int64.ofInt (wholePart x) := by
  simp only [truncWord]
  rw [if_neg (by omega)]

theorem wholePart_of_lt_one (h : (fields x).2.1 < 1023) : wholePart x = 0 := by
  unfold wholePart
  simp [h]

theorem wholePart_of_normal (h : 1023 ≤ (fields x).2.1) :
    wholePart x = (signOf x).apply ((if 0 ≤ ((fields x).2.1 : Int) - 1075 then
      ((fields x).2.2 + 2 ^ 52) * 2 ^ ((fields x).2.1 - 1075)
        else ((fields x).2.2 + 2 ^ 52) / 2 ^ (1075 - (fields x).2.1) : Nat) : Int) := by
  have hd := decompose_eq x
  simp only [show ¬ (fields x).2.1 = 0 by omega, if_false] at hd
  unfold wholePart signOf
  rw [hd]
  simp only [show ¬ (fields x).2.1 < 1023 by omega, if_false, Nat.pow_eq]
  have h1 : (((fields x).2.1 : Int) - 1075).toNat = (fields x).2.1 - 1075 := by omega
  have h2 : (-(((fields x).2.1 : Int) - 1075)).toNat = 1075 - (fields x).2.1 := by omega
  rw [h1, h2]
  cases (fields x).1 <;> rfl

theorem shift_lt_of_exponent (h1 : 1023 ≤ (fields x).2.1) (h2 : (fields x).2.1 < 1086) :
    (if 0 ≤ ((fields x).2.1 : Int) - 1075 then
      ((fields x).2.2 + 2 ^ 52) * 2 ^ ((fields x).2.1 - 1075)
        else ((fields x).2.2 + 2 ^ 52) / 2 ^ (1075 - (fields x).2.1) : Nat) < 2 ^ 63 := by
  have hf := fields_fraction_lt x
  split_ifs with he
  · calc ((fields x).2.2 + 2 ^ 52) * 2 ^ ((fields x).2.1 - 1075)
        < 2 ^ 53 * 2 ^ 10 := Nat.mul_lt_mul_of_lt_of_le (by omega)
          (Nat.pow_le_pow_right (by decide) (by omega)) (by positivity)
      _ = 2 ^ 63 := by norm_num
  · calc ((fields x).2.2 + 2 ^ 52) / 2 ^ (1075 - (fields x).2.1)
        ≤ (fields x).2.2 + 2 ^ 52 := Nat.div_le_self _ _
      _ < 2 ^ 63 := by omega

theorem wholePart_lt_of_exponent (h : (fields x).2.1 < 1086) :
    -2 ^ 63 < wholePart x ∧ wholePart x < 2 ^ 63 := by
  rcases Nat.lt_or_ge (fields x).2.1 1023 with hsmall | h1
  · rw [wholePart_of_lt_one hsmall]
    omega
  · have hlt := shift_lt_of_exponent h1 h
    rw [wholePart_of_normal h1]
    cases signOf x <;> simp only [Sign.apply] <;> omega

theorem wholePart_outside_of_exponent (h : 1086 ≤ (fields x).2.1) :
    wholePart x ≤ -2 ^ 63 ∨ 2 ^ 63 ≤ wholePart x := by
  have hbig : 2 ^ 63 ≤ ((fields x).2.2 + 2 ^ 52) * 2 ^ ((fields x).2.1 - 1075) :=
    calc 2 ^ 63 = 2 ^ 52 * 2 ^ 11 := by norm_num
      _ ≤ ((fields x).2.2 + 2 ^ 52) * 2 ^ ((fields x).2.1 - 1075) :=
        Nat.mul_le_mul (by omega) (Nat.pow_le_pow_right (by decide) (by omega))
  rw [wholePart_of_normal (by omega), if_pos (by omega)]
  cases signOf x <;> simp only [Sign.apply] <;> omega

theorem int_eq_wholePart {j : ℤ} (hj : value? x = some (j : ℚ)) : j = wholePart x := by
  rcases Nat.lt_or_ge (fields x).2.1 1023 with hsmall | h1
  · -- below one only a zero is whole
    rw [wholePart_of_lt_one hsmall]
    by_cases hz : (fields x).2.1 = 0 ∧ (fields x).2.2 = 0
    · simp only [value?, unpack_of_zero hz.1 hz.2, unpackedValue?, Option.some.injEq] at hj
      exact_mod_cast hj.symm
    · obtain ⟨m, e, hm, hu, he, hlt⟩ := finite_of_lt_one hsmall hz
      exact absurd ⟨j, hj⟩ (not_isWhole_of_lt_one hu he hlt)
  · obtain ⟨hm, hu⟩ := unpack_of_normal (x := x) (by omega) (exponent_ne_top hj)
    have hk1 : (((fields x).2.1 : Int) - 1075).toNat = (fields x).2.1 - 1075 := by omega
    have hk2 : (-(((fields x).2.1 : Int) - 1075)).toNat = 1075 - (fields x).2.1 := by omega
    rw [eq_shift_of_value hu hj, wholePart_of_normal h1, hk1, hk2]

/-- An integer of the word's range is its own truncation. -/
theorem truncWord_of_isWhole {j : ℤ} (hj : value? x = some (j : ℚ)) (lo : -2 ^ 63 ≤ j)
    (hi : j < 2 ^ 63) : (truncWord x).toInt = j := by
  have hw := int_eq_wholePart hj
  rcases Nat.lt_or_ge (fields x).2.1 1086 with h2 | h2
  · rw [truncWord_of_small_exponent h2, ← hw, Int64.toInt_ofInt,
      show Int64.size = 2 ^ 64 from rfl]
    exact Int.bmod_eq_of_le (by omega) (by omega)
  · -- from `2^63` up only the least word is in range
    have hout := wholePart_outside_of_exponent h2
    rw [truncWord_of_large_exponent h2, Int64.toInt_minValue]
    omega

/-- An integer outside the word's range truncates to the least word. -/
theorem truncWord_of_outside {j : ℤ} (hj : value? x = some (j : ℚ)) (h : j < -2 ^ 63 ∨ 2 ^ 63 ≤ j) :
    truncWord x = Int64.minValue := by
  rcases Nat.lt_or_ge (fields x).2.1 1086 with h2 | h2
  · have hw := int_eq_wholePart hj
    have hin := wholePart_lt_of_exponent h2
    omega
  · exact truncWord_of_large_exponent h2

theorem truncWord_of_isInf (h : x.isInf = true) : truncWord x = Int64.minValue :=
  truncWord_of_large_exponent (by
    rw [exponent_top_of_not_finite (.inl ((isInf_iff_unpack).1 h))]; omega)

theorem truncWord_of_isNaN (h : x.isNaN = true) : truncWord x = Int64.minValue :=
  truncWord_of_large_exponent (by
    rw [exponent_top_of_not_finite (.inr ((isNaN_iff_unpack).1 h))]; omega)

end ScriptMachine.Numeric
