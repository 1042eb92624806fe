import CryptixMiner.Client.Stratum
import CryptixMiner.Theorems.Target

/-! The target that a difficulty stands for: 40 bits at a place that the exponent gives, over at most two words
    of the target. -/

namespace CryptixMiner.Stratum.StratumHandler

/-- `mantissa * 0xffff * 2^(208 + exponent)`. -/
def targetOf (d : Difficulty) : Nat := d.mantissa.toNat * 0xffff * 2 ^ (208 + d.exponent).toNat

/-- With checked and with wrapping arithmetic, the target is set when it fits in 256 bits, and refused and left
    as it was when it does not. -/
def SetsTarget (h : StratumHandler) (d : Difficulty) : Prop :=
  ∀ checks, let r := h.setDifficulty checks d
    if targetOf d < 2 ^ 256 then r.1 = .ok ∧ r.2.targetPool.toNat = targetOf d
    else (∃ e, r.1 = .err e) ∧ r.2.targetPool = h.targetPool

section
variable {x : UInt64} {start remainder : Nat}

/-- The leading zeros say by how many bits a word can be shifted without loss. -/
theorem clz_lt_iff (hr : remainder < 64) : x.toBitVec.clz.toNat < remainder ↔ 2 ^ 64 ≤ 2 ^ remainder * x.toNat := by
  have hsplit : (2 : Nat) ^ 64 = 2 ^ remainder * 2 ^ (64 - remainder) := by
    rw [← Nat.pow_add, Nat.add_sub_cancel' (Nat.le_of_lt hr)]
  constructor
  · intro hlt
    have hne : x.toBitVec ≠ 0#64 := fun h0 => by
      rw [h0] at hlt
      have hzero : (BitVec.clz 0#64).toNat = 64 := by decide
      omega
    have hle : 2 ^ (64 - remainder) ≤ x.toNat :=
      Nat.le_trans (Nat.pow_le_pow_right (by decide) (by omega))
        (BitVec.two_pow_sub_clz_le_toNat_of_ne_zero (by decide) hne)
    rw [hsplit]
    exact Nat.mul_le_mul_left _ hle
  · intro hle
    refine Nat.lt_of_not_le fun hge => ?_
    have hlt : x.toNat < 2 ^ (64 - remainder) :=
      Nat.lt_of_lt_of_le BitVec.toNat_lt_two_pow_sub_clz (Nat.pow_le_pow_right (by decide) (by omega))
    rw [hsplit] at hle
    exact absurd (Nat.le_of_mul_le_mul_left hle (Nat.two_pow_pos _)) (Nat.not_le.mpr hlt)

theorem value_bottom (hs : start < 4) (bottom : UInt64) :
    Limbs.value ((Vector.replicate 4 (0 : UInt64)).set! start bottom).toList = 2 ^ (64 * start) * bottom.toNat := by
  have h := Limbs.value_set! (v := Vector.replicate 4 (0 : UInt64)) hs bottom
  have hzero : Limbs.value (Vector.replicate 4 (0 : UInt64)).toList = 0 := by decide
  rw [hzero, Loop.getElem!_eq _ hs, Vector.getElem_replicate] at h
  simpa using h

/-- A number shifted over two words. -/
theorem value_bottom_top (hs : start < 3) (hpos : 0 < remainder) (hr : remainder < 64) :
    Limbs.value (((Vector.replicate 4 (0 : UInt64)).set! start (x <<< UInt64.ofNat remainder)).set! (start + 1)
      (x >>> UInt64.ofNat (64 - remainder))).toList = x.toNat * 2 ^ (64 * start + remainder) := by
  have hs' : start < 4 := by omega
  have htop := Limbs.value_set! (v := (Vector.replicate 4 (0 : UInt64)).set! start (x <<< UInt64.ofNat remainder))
    (Nat.succ_lt_succ hs) (x >>> UInt64.ofNat (64 - remainder))
  have hzero : ((Vector.replicate 4 (0 : UInt64)).set! start (x <<< UInt64.ofNat remainder))[start + 1]! = 0 := by
    rw [Loop.getElem!_set! hs', if_neg (Nat.ne_of_lt (Nat.lt_succ_self start)), Loop.getElem!_eq _ (Nat.succ_lt_succ hs),
      Vector.getElem_replicate]
  have hparts := Limbs.toNat_shiftLeft_add (w := x) hpos hr
  rw [hzero, value_bottom hs' _, UInt64.toNat_zero, Nat.mul_zero, Nat.add_zero, Nat.mul_succ, Nat.pow_add,
    Nat.mul_assoc, ← Nat.mul_add, hparts] at htop
  rw [htop, Nat.pow_add]
  ac_rfl

end

/-! ### The exact condition -/

variable (h : StratumHandler) (d : Difficulty)

theorem toNat_newMantissa : (d.mantissa * DIFFICULTY_1_TARGET.1).toNat = d.mantissa.toNat * 0xffff := by
  have hm := d.mantissa_lt
  have hone : DIFFICULTY_1_TARGET.1.toNat = 0xffff := rfl
  rw [UInt64.toNat_mul, hone, Nat.mod_eq_of_lt (by omega)]

theorem exponent_one : DIFFICULTY_1_TARGET.2 = 208 := rfl

/-- Where the exponent puts the 40 bits: not in the first words only, and never above the last one. -/
def InRange : Prop := d.exponent < 48 ∧ d.exponent ≠ -144 ∧ d.exponent ≠ -80

theorem setDifficulty_panics (hrange : ¬InRange d) : (h.setDifficulty true d).1 = .panicked := by
  have hge := d.exponent_ge
  have hplace : 4 ≤ (208 + d.exponent).toNat / 64 ∨
      (208 + d.exponent).toNat / 64 < 3 ∧ (208 + d.exponent).toNat % 64 = 0 := by
    unfold InRange at hrange
    omega
  simp only [setDifficulty]
  rw [exponent_one]
  rcases hplace with hstart | ⟨hstart, hremainder⟩
  · rw [if_pos hstart]
  · rw [if_neg (by omega), if_pos hstart, hremainder]
    rfl

theorem not_setsTarget_of_panic (hpanic : (h.setDifficulty true d).1 = .panicked) : ¬SetsTarget h d := fun hset => by
  have hset := hset true
  simp only [hpanic] at hset
  split at hset
  · cases hset.1
  · obtain ⟨⟨e, he⟩, -⟩ := hset
    cases he

/-- Below the last word the 40 bits always fit. -/
theorem setDifficulty_low (checks : Bool) (hstart : (208 + d.exponent).toNat / 64 < 3)
    (hremainder : (208 + d.exponent).toNat % 64 ≠ 0) :
    (h.setDifficulty checks d).1 = .ok ∧ (h.setDifficulty checks d).2.targetPool.toNat = targetOf d := by
  have hvalue := value_bottom_top (x := d.mantissa * DIFFICULTY_1_TARGET.1) hstart (Nat.pos_of_ne_zero hremainder)
    (Nat.mod_lt _ (by decide))
  rw [toNat_newMantissa, Nat.div_add_mod] at hvalue
  have hchecks : ¬((checks && decide ((208 + d.exponent).toNat % 64 = 0)) = true) := by simp [hremainder]
  simp only [setDifficulty]
  rw [exponent_one, if_neg (Nat.not_le.mpr (Nat.lt_succ_of_lt hstart)), if_pos hstart, if_neg hchecks]
  exact ⟨rfl, hvalue⟩

/-- In the last word, the leading zeros decide. -/
theorem setDifficulty_last (checks : Bool) (hstart : (208 + d.exponent).toNat / 64 = 3) :
    let r := h.setDifficulty checks d
    if targetOf d < 2 ^ 256 then r.1 = .ok ∧ r.2.targetPool.toNat = targetOf d
    else (∃ e, r.1 = .err e) ∧ r.2.targetPool = h.targetPool := by
  have hremainder : (208 + d.exponent).toNat % 64 < 64 := Nat.mod_lt _ (by decide)
  have hplace : (208 + d.exponent).toNat = 192 + (208 + d.exponent).toNat % 64 := by omega
  generalize (208 + d.exponent).toNat % 64 = remainder at hremainder hplace
  have hclz := clz_lt_iff (x := d.mantissa * DIFFICULTY_1_TARGET.1) hremainder
  have hmod : (192 + remainder) % 64 = remainder := by omega
  have htarget : targetOf d = 2 ^ 192 * (2 ^ remainder * (d.mantissa * DIFFICULTY_1_TARGET.1).toNat) := by
    rw [toNat_newMantissa, targetOf, hplace, Nat.pow_add]
    ac_rfl
  simp only [setDifficulty]
  rw [hplace] at hstart
  rw [exponent_one, hplace, hstart, hmod, if_neg (Nat.not_le.mpr (Nat.lt_succ_self 3)), if_neg (Nat.lt_irrefl 3)]
  by_cases hlt : (d.mantissa * DIFFICULTY_1_TARGET.1).toBitVec.clz.toNat < remainder
  · have hbig := hclz.mp hlt
    rw [if_neg (by omega), if_pos hlt]
    exact ⟨⟨_, rfl⟩, rfl⟩
  · have hsmall : 2 ^ remainder * (d.mantissa * DIFFICULTY_1_TARGET.1).toNat < 2 ^ 64 :=
      Nat.lt_of_not_le fun hle => hlt (hclz.mpr hle)
    rw [if_pos (by omega), if_neg hlt]
    refine ⟨rfl, ?_⟩
    rw [htarget, Uint256.toNat, value_bottom (by decide), UInt64.toNat_shiftLeft,
      Words.toNat_shiftAmount hremainder, Nat.shiftLeft_eq, Nat.mul_comm (UInt64.toNat _), Nat.mod_eq_of_lt hsmall]

/-- The target is set right exactly when no index and no shift goes out of range. -/
theorem setsTarget_iff : SetsTarget h d ↔ d.exponent < 48 ∧ d.exponent ≠ -144 ∧ d.exponent ≠ -80 := by
  constructor
  · intro hset
    by_contra hrange
    exact not_setsTarget_of_panic h d (setDifficulty_panics h d hrange) hset
  · intro hrange checks
    have hge := d.exponent_ge
    by_cases hstart : (208 + d.exponent).toNat / 64 < 3
    · obtain ⟨hok, hvalue⟩ := setDifficulty_low h d checks hstart (by omega)
      have hm := d.mantissa_lt
      have hfits : targetOf d < 2 ^ 256 := by
        have hpow : (2 : Nat) ^ (208 + d.exponent).toNat ≤ 2 ^ 191 := Nat.pow_le_pow_right (by decide) (by omega)
        calc targetOf d ≤ 2 ^ 40 * 2 ^ 191 := Nat.mul_le_mul (by omega) hpow
          _ < 2 ^ 256 := by decide
      simp only [hfits, if_true]
      exact ⟨hok, hvalue⟩
    · exact setDifficulty_last h d checks (by omega)

/-- A difficulty of zero, whose reciprocal is infinite. -/
theorem not_setsTarget_zero : ¬SetsTarget (connect "miner") (integerDecode 0x7f800000) :=
  not_setsTarget_of_panic _ _ (by decide)

end CryptixMiner.Stratum.StratumHandler
