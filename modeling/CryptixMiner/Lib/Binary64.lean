import Mathlib

/-! What rounding and packing do to the binary64 numbers of `Float` that have a full mantissa: the quotient of two
    numbers is rounded to the nearest integer, ties to even, at the place where it has 53 bits. -/

namespace Binary64
open Float.Model UnpackedFloat

/-- The integer nearest to `num / den`, the even one of two. -/
def roundDiv (num den : Nat) : Nat :=
  if 2 * (num % den) < den then num / den
  else if 2 * (num % den) = den then num / den + num / den % 2
  else num / den + 1

/-! ### Shifts of a mantissa with its residual bits -/

/-- The quotient, with what its remainder says about the bits below. -/
def extended (num den : Nat) : ExtendedMantissa :=
  ExtendedMantissa.ofMantissaAndAccuracy (num / den) (accuracyOfFraction (num % den) den)

section Shift
variable {num den : Nat}

theorem extended_eq (hden : 0 < den) : extended num den =
    ⟨num / den, decide (den ≤ 2 * (num % den)), decide (num % den ≠ 0 ∧ 2 * (num % den) ≠ den)⟩ := by
  unfold extended accuracyOfFraction
  by_cases h0 : num % den = 0
  · have hle : ¬den ≤ 0 := by omega
    simp [h0, ExtendedMantissa.ofMantissaAndAccuracy, hle]
  · rcases Nat.lt_trichotomy (2 * (num % den)) den with h | h | h
    · have hle : ¬den ≤ 2 * (num % den) := by omega
      simp [h0, Nat.compare_eq_lt.mpr h, ExtendedMantissa.ofMantissaAndAccuracy, hle, h.ne]
    · simp [h0, h, ExtendedMantissa.ofMantissaAndAccuracy]
    · have hne : 2 * (num % den) ≠ den := by omega
      simp [h0, Nat.compare_eq_gt.mpr h, ExtendedMantissa.ofMantissaAndAccuracy, h.le, hne]

theorem div_mod_two_mul (num den : Nat) :
    num / (2 * den) = num / den / 2 ∧ num % (2 * den) = num % den + den * (num / den % 2) := by
  rw [Nat.mul_comm 2 den]
  exact ⟨(Nat.div_div_eq_div_mul num den 2).symm, Nat.mod_mul⟩

/-- A shift by one doubles the denominator. -/
theorem shiftRightOne_extended (hden : 0 < den) : (extended num den).shiftRightOne = extended num (2 * den) := by
  obtain ⟨hdiv, hmod⟩ := div_mod_two_mul num den
  have hlt := Nat.mod_lt num hden
  rw [extended_eq hden, extended_eq (Nat.mul_pos (by decide) hden), hdiv, hmod]
  simp only [ExtendedMantissa.shiftRightOne, ExtendedMantissa.mk.injEq, true_and]
  generalize num % den = r at hlt
  rcases Nat.mod_two_eq_zero_or_one (num / den) with hbit | hbit
  · rw [hbit, Nat.mul_zero, Nat.add_zero]
    refine ⟨?_, ?_⟩
    · have hle : ¬2 * den ≤ 2 * r := by omega
      simp [hle]
    · rw [← Bool.decide_or, decide_eq_decide]
      omega
  · rw [hbit, Nat.mul_one]
    refine ⟨?_, ?_⟩
    · have hle : 2 * den ≤ 2 * (r + den) := by omega
      simp [hle]
    · rw [← Bool.decide_or, decide_eq_decide]
      omega

theorem shiftRight_extended (hden : 0 < den) (k : Nat) : extended num den >>> k = extended num (2 ^ k * den) := by
  induction k with
  | zero =>
    rw [Nat.pow_zero, Nat.one_mul]
    rfl
  | succ k ih =>
    have hstep : extended num den >>> (k + 1) = (extended num den >>> k).shiftRightOne := rfl
    rw [hstep, ih, shiftRightOne_extended (Nat.mul_pos (Nat.two_pow_pos k) hden), ← Nat.mul_assoc, Nat.pow_succ,
      Nat.mul_comm 2]

theorem roundedMantissa_extended (hden : 0 < den) : (extended num den).roundedMantissa = roundDiv num den := by
  unfold extended accuracyOfFraction roundDiv
  by_cases h0 : num % den = 0
  · simp [h0, hden, ExtendedMantissa.ofMantissaAndAccuracy, ExtendedMantissa.roundedMantissa,
      ExtendedMantissa.accuracy, Accuracy.roundToNearestEven]
  · rcases Nat.lt_trichotomy (2 * (num % den)) den with h | h | h
    · simp [h0, h, Nat.compare_eq_lt.mpr h, ExtendedMantissa.ofMantissaAndAccuracy,
        ExtendedMantissa.roundedMantissa, ExtendedMantissa.accuracy, Accuracy.roundToNearestEven]
    · simp [h0, h, ExtendedMantissa.ofMantissaAndAccuracy, ExtendedMantissa.roundedMantissa,
        ExtendedMantissa.accuracy, Accuracy.roundToNearestEven]
    · have hlt : ¬2 * (num % den) < den := by omega
      have hne : 2 * (num % den) ≠ den := by omega
      simp [h0, hlt, hne, Nat.compare_eq_gt.mpr h, ExtendedMantissa.ofMantissaAndAccuracy,
        ExtendedMantissa.roundedMantissa, ExtendedMantissa.accuracy, Accuracy.roundToNearestEven]

end Shift

/-! ### Rounding where the result has 53 bits -/

/-- A mantissa has 53 bits. -/
def Full (m : Nat) : Prop := 2 ^ 52 ≤ m ∧ m < 2 ^ 53

section Round
variable {sign : Sign} {num den m k : Nat} {e : Int}

theorem Full.pos (h : Full m) : 0 < m := lt_of_lt_of_le (by decide) h.1

theorem Full.log2 (h : Full m) : m.log2 = 52 := (Nat.log2_eq_iff h.pos.ne').mpr h

/-- The place at which a mantissa has 53 bits, when that is not below the smallest. -/
theorem targetExponent_eq (hfull : Full (m / 2 ^ k)) (he : -1074 ≤ e + k) :
    Format.binary64.targetExponent (totalExponent m e) = e + k := by
  have hpos : m ≠ 0 := by
    rintro rfl
    rw [Nat.zero_div] at hfull
    exact absurd hfull.pos (by decide)
  have hlog : m.log2 = 52 + k := by
    rw [Nat.log2_eq_iff hpos, Nat.add_right_comm, Nat.pow_add, Nat.pow_add]
    exact ⟨(Nat.le_div_iff_mul_le (Nat.two_pow_pos k)).mp hfull.1,
      (Nat.div_lt_iff_lt_mul (Nat.two_pow_pos k)).mp hfull.2⟩
  simp only [Format.targetExponent, totalExponent, hlog, Format.mantissaBits, Format.minExponent]
  norm_num
  omega

/-- Rounds a quotient whose place is `k` above its last bit. -/
theorem roundWithAccuracy_eq (sign : Sign) (num : Nat) (hden : 0 < den) (hfull : Full (num / den / 2 ^ k))
    (he : -1074 ≤ e + k) (hround : Full (roundDiv num (2 ^ k * den))) :
    roundWithAccuracy Format.binary64 sign (num / den) e (accuracyOfFraction (num % den) den) =
      .finite sign (roundDiv num (2 ^ k * den)) (e + k) hround.pos := by
  have hshift : (e + k - e).toNat = k := by omega
  have hfirst : shiftToTargetExponent Format.binary64 (num / den) e (accuracyOfFraction (num % den) den) =
      (extended num (2 ^ k * den), e + k) := by
    rw [shiftToTargetExponent, targetExponent_eq hfull he, shiftToExponent, hshift]
    exact congrArg (·, e + k) (shiftRight_extended hden k)
  have hsecond : shiftToTargetExponent Format.binary64 (roundDiv num (2 ^ k * den)) (e + k) .exact =
      (⟨roundDiv num (2 ^ k * den), false, false⟩, e + k) := by
    have htarget : Format.binary64.targetExponent (totalExponent (roundDiv num (2 ^ k * den)) (e + k)) = e + k := by
      rw [targetExponent_eq (k := 0) (by rwa [Nat.pow_zero, Nat.div_one]) (by omega)]
      exact Int.add_zero _
    rw [shiftToTargetExponent, htarget, shiftToExponent, Int.sub_self]
    exact congrArg (_, ·) (Int.add_zero _)
  rw [roundWithAccuracy, hfirst]
  dsimp only
  rw [roundedMantissa_extended (Nat.mul_pos (Nat.two_pow_pos k) hden), hsecond]
  exact dif_neg hround.pos.ne'

theorem roundDiv_one (m : Nat) : roundDiv m 1 = m := by
  rw [roundDiv, Nat.mod_one, Nat.div_one, if_pos (by decide)]

theorem roundDiv_mul_right {c : Nat} (hc : 0 < c) (num den : Nat) :
    roundDiv (num * c) (den * c) = roundDiv num den := by
  have hlt : 2 * (num % den * c) < den * c ↔ 2 * (num % den) < den := by
    rw [← Nat.mul_assoc]
    exact Nat.mul_lt_mul_right hc
  have heq : 2 * (num % den * c) = den * c ↔ 2 * (num % den) = den := by
    rw [← Nat.mul_assoc]
    exact Nat.mul_left_inj hc.ne'
  simp only [roundDiv, Nat.mul_mod_mul_right, Nat.mul_div_mul_right _ _ hc, hlt, heq]

theorem finite_congr {s : Sign} {m n : Nat} {e f : Int} (hm : m = n) (he : e = f) (hpos : 0 < m) (hpos' : 0 < n) :
    UnpackedFloat.finite s m e hpos = UnpackedFloat.finite s n f hpos' := by
  subst hm
  subst he
  rfl

/-- Rounds a mantissa that is exact. -/
theorem roundWithAccuracy_exact (hfull : Full (m / 2 ^ k)) (he : -1074 ≤ e + k) (hround : Full (roundDiv m (2 ^ k))) :
    roundWithAccuracy Format.binary64 sign m e .exact = .finite sign (roundDiv m (2 ^ k)) (e + k) hround.pos := by
  have hone : 2 ^ k * 1 = 2 ^ k := Nat.mul_one _
  have h := roundWithAccuracy_eq sign m Nat.one_pos (by rwa [Nat.div_one]) he (by rwa [hone])
  rw [Nat.div_one, Nat.mod_one] at h
  exact h.trans (finite_congr (by rw [hone]) rfl _ _)

theorem totalExponent_mul (hm : m ≠ 0) (j : Nat) : totalExponent (m * 2 ^ j) (e - j) = totalExponent m e := by
  have hlog : (m * 2 ^ j).log2 = m.log2 + j := by
    rw [Nat.log2_eq_iff (Nat.mul_ne_zero hm (Nat.two_pow_pos j).ne'), Nat.add_right_comm, Nat.pow_add, Nat.pow_add]
    exact ⟨Nat.mul_le_mul_right _ (Nat.log2_self_le hm),
      Nat.mul_lt_mul_of_pos_right Nat.lt_log2_self (Nat.two_pow_pos j)⟩
  rw [totalExponent, totalExponent, hlog]
  omega

/-- A mantissa to which `w` bits are added is rounded where it has 53 bits, above or below its last bit. -/
theorem round_eq {w : Nat} (hfull : Full (m * 2 ^ w / 2 ^ k)) (he : -1074 ≤ e - w + k)
    (hround : Full (roundDiv (m * 2 ^ w) (2 ^ k))) :
    UnpackedFloat.round Format.binary64 sign m e =
      .finite sign (roundDiv (m * 2 ^ w) (2 ^ k)) (e - w + k) hround.pos := by
  rcases Nat.le_total w k with hle | hle
  · obtain ⟨j, rfl⟩ := Nat.exists_eq_add_of_le hle
    have hpow : 2 ^ (w + j) = 2 ^ j * 2 ^ w := by rw [Nat.pow_add, Nat.mul_comm]
    rw [hpow, Nat.mul_div_mul_right _ _ (Nat.two_pow_pos w)] at hfull
    have hdiv : roundDiv (m * 2 ^ w) (2 ^ (w + j)) = roundDiv m (2 ^ j) := by
      rw [hpow, roundDiv_mul_right (Nat.two_pow_pos w)]
    have hej : -1074 ≤ e + j := by omega
    have hshift : (e - (e + j)).toNat = 0 := by omega
    rw [UnpackedFloat.round, targetExponent_eq hfull hej, decreaseExponent, hshift]
    dsimp only
    rw [Nat.shiftLeft_zero, Int.natCast_zero, Int.sub_zero, roundWithAccuracy_exact hfull hej (hdiv ▸ hround)]
    exact finite_congr hdiv.symm (by omega) _ _
  · obtain ⟨j, rfl⟩ := Nat.exists_eq_add_of_le hle
    have hpow : m * 2 ^ (k + j) = m * 2 ^ j * 2 ^ k := by rw [Nat.pow_add, Nat.mul_comm (2 ^ k), Nat.mul_assoc]
    rw [hpow, Nat.mul_div_cancel _ (Nat.two_pow_pos k)] at hfull
    have hdiv : roundDiv (m * 2 ^ (k + j)) (2 ^ k) = m * 2 ^ j := by
      have h := roundDiv_mul_right (Nat.two_pow_pos k) (m * 2 ^ j) 1
      rwa [Nat.one_mul, roundDiv_one, ← hpow] at h
    have hm : m ≠ 0 := by
      rintro rfl
      rw [Nat.zero_mul] at hfull
      exact absurd hfull.pos (by decide)
    have hfull' : Full (m * 2 ^ j / 2 ^ 0) := by rwa [Nat.pow_zero, Nat.div_one]
    have hej : -1074 ≤ e - j + (0 : Nat) := by omega
    have hshift : (e - (e - j + (0 : Nat))).toNat = j := by omega
    have hround' : roundDiv (m * 2 ^ j) (2 ^ 0) = m * 2 ^ j := by rw [Nat.pow_zero, roundDiv_one]
    rw [UnpackedFloat.round, ← totalExponent_mul hm j, targetExponent_eq hfull' hej, decreaseExponent, hshift]
    dsimp only
    rw [Nat.shiftLeft_eq, roundWithAccuracy_exact hfull' hej (hround'.symm ▸ hfull)]
    exact finite_congr (hround'.trans hdiv.symm) (by omega) _ _

end Round

/-! ### Packing -/

section Pack
variable {sign : Sign} {m : Nat} {e : Int}

theorem unpack_pack_zero (sign : Sign) : (Float.Model.pack (.zero sign)).unpack = .zero sign := by
  cases sign <;> rfl

/-- A full mantissa survives packing where its exponent is not that of infinity. -/
theorem unpack_pack (hm : Full m) (hlo : -1074 ≤ e) (hhi : e ≤ 971) :
    (Float.Model.pack (.finite sign m e hm.pos)).unpack = .finite sign m e hm.pos := by
  have hbias : Format.binary64.exponentBias = 1023 := rfl
  have hbits : Format.binary64.mantissaBits = 53 := rfl
  have hover : ¬2 ^ 11 ≤ (e + (1023 : Nat) + (52 : Nat)).toNat + 1 := by omega
  have hpack : UnpackedFloat.pack Format.binary64 (.finite sign m e hm.pos) =
      packComponents Format.binary64 sign (BitVec.ofNat 11 (e + (1023 : Nat) + (52 : Nat)).toNat)
        (BitVec.ofNat 52 m) := by
    simp only [UnpackedFloat.pack, hbias, hbits, hm.log2]
    rw [if_neg hover, if_pos trivial]
  have hexp : (BitVec.ofNat 11 (e + (1023 : Nat) + (52 : Nat)).toNat).toNat =
      (e + (1023 : Nat) + (52 : Nat)).toNat := by
    rw [BitVec.toNat_ofNat, Nat.mod_eq_of_lt (by omega)]
  have hnan : BitVec.ofNat 11 (e + (1023 : Nat) + (52 : Nat)).toNat ≠ -1#11 := by
    rw [ne_eq, ← BitVec.toNat_inj, hexp]
    simp only [BitVec.reduceNeg, BitVec.toNat_ofNat, Nat.reducePow, Nat.reduceMod]
    omega
  have hzero : BitVec.ofNat 11 (e + (1023 : Nat) + (52 : Nat)).toNat ≠ 0#11 := by
    rw [ne_eq, ← BitVec.toNat_inj, hexp]
    simp only [BitVec.toNat_ofNat, Nat.reducePow, Nat.reduceMod]
    omega
  -- The implicit bit is put back.
  have hmant : (1#1 ++ BitVec.ofNat 52 m).toNat = m := by
    have hlow : m % 2 ^ 52 < 2 ^ 52 := Nat.mod_lt _ (by decide)
    have hlo := hm.1
    have hhi := hm.2
    rw [BitVec.toNat_append, BitVec.toNat_ofNat, BitVec.toNat_ofNat, ← Nat.shiftLeft_add_eq_or_of_lt hlow]
    simp only [Nat.reducePow, Nat.reduceMod, Nat.reduceShiftLeft] at hlo hhi ⊢
    omega
  have hunpack : UnpackedFloat.unpack Format.binary64 (packComponents Format.binary64 sign
      (BitVec.ofNat 11 (e + (1023 : Nat) + (52 : Nat)).toNat) (BitVec.ofNat 52 m)) = .finite sign m e hm.pos := by
    simp only [UnpackedFloat.unpack, unpackMantissa_packComponents, unpackExponent_packComponents,
      unpackSign_packComponents, Sign.ofBitVec_toBitVec, hbias]
    rw [if_neg hnan, if_neg hzero]
    exact finite_congr hmant (by rw [hexp]; omega) _ _
  rw [Float.Model.unpack, Float.Model.pack]
  exact (congrArg (UnpackedFloat.unpack Format.binary64) hpack).trans hunpack

end Pack

end Binary64
