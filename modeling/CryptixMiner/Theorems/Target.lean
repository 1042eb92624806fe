import CryptixMiner.Kernel.PreMatrix
import CryptixMiner.Pow.State

/-! The arithmetic of targets: the shift of a 256-bit number, the compact form of a target, and three orders
    (of `Uint256`, of numbers, of the kernels' word loop) that are one. -/

namespace CryptixMiner

namespace Uint256

/-! ### The shift -/

section
variable {v : Vector UInt64 4} {k : Nat} {x : UInt64}

theorem addTo_eq (checks : Bool) (hk : k < 4) (hfit : v[k]!.toNat + x.toNat < 2 ^ 64) :
    ∃ v', addTo checks v k x = some v' ∧ Limbs.value v'.toList = Limbs.value v.toList + 2 ^ (64 * k) * x.toNat ∧
      v'[k]!.toNat = v[k]!.toNat + x.toNat ∧ ∀ j, j ≠ k → v'[j]! = v[j]! := by
  have hsum : (v[k]! + x).toNat = v[k]!.toNat + x.toNat := by
    rw [UInt64.toNat_add, Nat.mod_eq_of_lt hfit]
  refine ⟨v.set! k (v[k]! + x), ?_, ?_, ?_, fun j hj => ?_⟩
  · rw [addTo, decide_eq_false (Nat.not_le.mpr hfit), Bool.and_false, if_neg Bool.false_ne_true]
  · have hset := Limbs.value_set! (v := v) hk (v[k]! + x)
    rw [hsum, Nat.mul_add] at hset
    omega
  · rw [Loop.getElem!_set! hk, if_pos rfl, hsum]
  · rw [Loop.getElem!_set! hk, if_neg (Ne.symm hj)]

/-- What a word shifted by fewer than 64 bits leaves at its place, and what it carries into the next one. -/
theorem exists_parts (w : UInt64) {bitShift : Nat} (hs : bitShift < 64) : ∃ carry < 2 ^ bitShift,
    (w <<< UInt64.ofNat bitShift).toNat + 2 ^ 64 * carry = 2 ^ bitShift * w.toNat ∧
      (0 < bitShift → (w >>> UInt64.ofNat (64 - bitShift)).toNat = carry) := by
  rcases Nat.eq_zero_or_pos bitShift with rfl | hpos
  · refine ⟨0, Nat.one_pos, ?_, fun h => absurd h (Nat.lt_irrefl 0)⟩
    rw [Limbs.toNat_shiftLeft_zero, Nat.pow_zero, Nat.one_mul]
    rfl
  · exact ⟨_, Limbs.toNat_shiftRight_lt hpos hs, Limbs.toNat_shiftLeft_add hpos hs, fun _ => rfl⟩

/-- A word adds itself, shifted, to the result; what would go past the top is lost. -/
theorem shlWord_eq (checks : Bool) (original : Vector UInt64 4) {wordShift bitShift i : Nat} (hs : bitShift < 64)
    (hplace : v[i + wordShift]!.toNat < 2 ^ bitShift) (habove : ∀ j, i + wordShift < j → v[j]! = 0) :
    ∃ v', shlWord checks original wordShift bitShift i v = some v' ∧
      Limbs.value v'.toList ≡
        Limbs.value v.toList + 2 ^ (64 * (i + wordShift)) * (2 ^ bitShift * original[i]!.toNat) [MOD 2 ^ 256] ∧
      v'[i + wordShift + 1]!.toNat < 2 ^ bitShift ∧ ∀ j, i + wordShift + 1 < j → v'[j]! = 0 := by
  obtain ⟨carry, hcarry, hparts, hright⟩ := exists_parts original[i]! hs
  have hroom := Limbs.toNat_shiftLeft_le (w := original[i]!) hs
  have hpow : 2 ^ (64 * (i + wordShift)) * (2 ^ 64 * carry) = 2 ^ (64 * (i + wordShift + 1)) * carry := by
    rw [← Nat.mul_assoc, ← Nat.pow_add, Nat.mul_succ]
  have hpos := Nat.two_pow_pos bitShift
  rw [← hparts, Nat.mul_add, hpow]
  generalize hp : i + wordShift = p at *
  have hlost {q c : Nat} (hq : 4 ≤ q) : 2 ^ (64 * q) * c ≡ 0 [MOD 2 ^ 256] :=
    (Nat.modEq_zero_iff_dvd.mpr (Nat.dvd_mul_right_of_dvd (Nat.pow_dvd_pow 2 (by omega)) c))
  rcases Nat.lt_or_ge p 4 with hp4 | hp4
  · obtain ⟨v₁, hv₁, hvalue₁, -, hrest₁⟩ := addTo_eq checks (v := v)
      (x := original[i]! <<< UInt64.ofNat bitShift) hp4 (by omega)
    have hnext : v₁[p + 1]! = 0 := by rw [hrest₁ _ (Nat.succ_ne_self p), habove _ (Nat.lt_succ_self p)]
    by_cases hadd : 0 < bitShift ∧ p + 1 < 4
    · obtain ⟨v₂, hv₂, hvalue₂, hword₂, hrest₂⟩ := addTo_eq checks (v := v₁) (k := p + 1)
        (x := original[i]! >>> UInt64.ofNat (64 - bitShift)) hadd.2
        (by rw [hnext, UInt64.toNat_zero, Nat.zero_add]; exact UInt64.toNat_lt _)
      rw [hright hadd.1] at hvalue₂ hword₂
      refine ⟨v₂, ?_, ?_, ?_, fun j hj => ?_⟩
      · simp only [shlWord, hp, if_pos (And.intro hs hp4), hv₁, Option.bind_eq_bind, Option.bind_some, if_pos hadd, hv₂]
      · rw [hvalue₂, hvalue₁, Nat.add_assoc]
      · rw [hword₂, hnext]
        simpa using hcarry
      · rw [hrest₂ j (by omega), hrest₁ j (by omega), habove j (by omega)]
    · refine ⟨v₁, ?_, ?_, ?_, fun j hj => ?_⟩
      · simp only [shlWord, hp, if_pos (And.intro hs hp4), hv₁, Option.bind_eq_bind, Option.bind_some, if_neg hadd]
      · -- Nothing is carried, or it is carried past the top.
        have hzero : 2 ^ (64 * (p + 1)) * carry ≡ 0 [MOD 2 ^ 256] := by
          rcases Nat.eq_zero_or_pos bitShift with rfl | hb
          · have hc : carry = 0 := by simpa using hcarry
            rw [hc, Nat.mul_zero]
          · exact hlost (by omega)
        rw [hvalue₁, ← Nat.add_assoc]
        exact (hzero.add_left _).symm
      · rw [hnext]
        exact hpos
      · rw [hrest₁ j (by omega), habove j (by omega)]
  · have hout : ¬(bitShift < 64 ∧ p < 4) := by omega
    have hout' : ¬(0 < bitShift ∧ p + 1 < 4) := by omega
    refine ⟨v, ?_, ?_, ?_, fun j hj => habove j (by omega)⟩
    · simp only [shlWord, hp, if_neg hout, Option.bind_eq_bind, Option.bind_some, if_neg hout']
    · exact (((hlost hp4).add (hlost (by omega))).add_left _).symm
    · rw [habove _ (Nat.lt_succ_self p)]
      exact hpos

/-- Before word `i` the result holds the words below it, shifted; the next place holds no more than what was
    carried into it. -/
structure Shifted (original : Vector UInt64 4) (shift i : Nat) (ret : Vector UInt64 4) : Prop where
  value : Limbs.value ret.toList ≡ 2 ^ shift * Limbs.value (original.toList.take i) [MOD 2 ^ 256]
  place : ret[i + shift / 64]!.toNat < 2 ^ (shift % 64)
  above : ∀ j, i + shift / 64 < j → ret[j]! = 0

theorem Shifted.word {original : Vector UInt64 4} {shift i : Nat} (h : Shifted original shift i v) (hi : i < 4)
    (checks : Bool) : ∃ v', shlWord checks original (shift / 64) (shift % 64) i v = some v' ∧
      Shifted original shift (i + 1) v' := by
  obtain ⟨v', hv', hvalue, hplace, habove⟩ :=
    shlWord_eq checks original (Nat.mod_lt shift (by decide)) h.place h.above
  have hnext : i + shift / 64 + 1 = i + 1 + shift / 64 := by omega
  rw [hnext] at hplace habove
  refine ⟨v', hv', ?_, hplace, habove⟩
  have hlist : i < original.toList.length := by rwa [Vector.length_toList]
  have hword : original.toList[i] = original[i]! := by simp [hi]
  have hshift : 2 ^ (64 * (i + shift / 64)) * (2 ^ (shift % 64) * original[i]!.toNat) =
      2 ^ shift * (2 ^ (64 * i) * original[i]!.toNat) := by
    rw [← Nat.mul_assoc, ← Nat.mul_assoc, ← Nat.pow_add, ← Nat.pow_add]
    congr 2
    omega
  rw [Limbs.value_take_succ (by simpa using hi), hword, Nat.mul_add, ← hshift]
  exact hvalue.trans (h.value.add_right _)

end

theorem toNat_lt (x : Uint256) : x.toNat < 2 ^ 256 := by
  have h := Limbs.value_lt x.words.toList
  rwa [Vector.length_toList] at h

theorem shl_eq (checks : Bool) (x : Uint256) (shift : Nat) :
    ∃ y, x.shl checks shift = some y ∧ y.toNat = x.toNat * 2 ^ shift % 2 ^ 256 := by
  obtain ⟨ret, hret, h⟩ : ∃ ret, Loop.forRange 0 4 (fun i ret => ret.bind (shlWord checks x.words (shift / 64)
      (shift % 64) i)) (some (Vector.replicate 4 0)) = some ret ∧ Shifted x.words shift 4 ret := by
    refine Loop.forRange_inv (P := fun i ret => ∃ v, ret = some v ∧ Shifted x.words shift i v) (by decide) ?_ ?_
    · have hzero : ∀ j : Nat, (Vector.replicate 4 (0 : UInt64))[j]! = 0 := fun j => by
        rcases Nat.lt_or_ge j 4 with hj | hj
        · simp [hj]
        · rw [getElem!_neg (Vector.replicate 4 (0 : UInt64)) j (Nat.not_lt.mpr hj)]
          rfl
      refine ⟨_, rfl, by simp [Limbs.value, List.replicate, Nat.ModEq], ?_, fun j _ => hzero j⟩
      rw [hzero]
      exact Nat.two_pow_pos _
    · rintro i _ - hi ⟨v, rfl, h⟩
      obtain ⟨v', hv', h'⟩ := h.word hi checks
      exact ⟨v', hv', h'⟩
  refine ⟨⟨ret⟩, by rw [shl, hret]; rfl, ?_⟩
  have hvalue := h.value
  rw [List.take_of_length_le (by simp), Nat.mul_comm] at hvalue
  rw [← Nat.mod_eq_of_lt (toNat_lt ⟨ret⟩)]
  exact hvalue

/-! ### Order -/

theorem cmp_eq (x y : Uint256) : x.cmp y = compare x.toNat y.toNat := Limbs.lexCmp_reverse (by simp)

theorem le_eq (x y : Uint256) : x.le y = decide (x.toNat ≤ y.toNat) := by
  rw [le, cmp_eq]
  exact Bool.eq_iff_iff.mpr (Nat.isLE_compare.trans decide_eq_true_iff.symm)

/-- The first difference from word `i - 1` down decides which number is greater. -/
theorem meetsTargetBelow_eq (hash target : Uint256) : ∀ {i : Nat}, i ≤ 4 →
    Kernel.meetsTargetBelow hash.toLeBytes target.words i =
      decide (Limbs.value (hash.words.toList.take i) ≤ Limbs.value (target.words.toList.take i))
  | 0, _ => by simp [Kernel.meetsTargetBelow, Limbs.value]
  | i + 1, hi => by
    have hlt : i < 4 := hi
    have hlist (x : Uint256) : i < x.words.toList.length := by rwa [Vector.length_toList]
    have hword (x : Uint256) (h : i < x.words.toList.length) : x.words.toList[i] = x.words[i] := by simp
    have hlow (x : Uint256) : Limbs.value (x.words.toList.take i) < 2 ^ (64 * i) := by
      have h := Limbs.value_lt (x.words.toList.take i)
      have hlen : (x.words.toList.take i).length = i := by simp; omega
      rwa [hlen] at h
    have hload : load64Le hash.toLeBytes (i * 8) = hash.words[i] := by
      rw [Nat.mul_comm, load64Le_toLeBytes hash hlt]
    have hhash := hlow hash
    have htarget := hlow target
    rw [Limbs.value_take_succ (hlist hash), Limbs.value_take_succ (hlist target), hword, hword, Kernel.meetsTargetBelow,
      hload, Loop.getElem!_eq _ hlt, meetsTargetBelow_eq hash target (Nat.le_of_succ_le hi)]
    simp only [gt_iff_lt, UInt64.lt_iff_toNat_lt]
    generalize hash.words[i].toNat = a at *
    generalize target.words[i].toNat = b at *
    rcases Nat.lt_trichotomy a b with h | rfl | h
    · have hstep : 2 ^ (64 * i) * a + 2 ^ (64 * i) ≤ 2 ^ (64 * i) * b := Nat.mul_le_mul_left _ h
      rw [if_pos h]
      exact (decide_eq_true (by omega)).symm
    · simp
    · have hstep : 2 ^ (64 * i) * b + 2 ^ (64 * i) ≤ 2 ^ (64 * i) * a := Nat.mul_le_mul_left _ h
      rw [if_neg (Nat.lt_asymm h), if_pos h]
      exact (decide_eq_false (by omega)).symm

theorem hashMeetsTargetWords_eq (hash target : Uint256) :
    Kernel.hashMeetsTargetWords hash.toLeBytes target.words = hash.le target := by
  rw [Kernel.hashMeetsTargetWords, meetsTargetBelow_eq hash target (Nat.le_refl 4), le_eq]
  rw [List.take_of_length_le (by simp), List.take_of_length_le (by simp)]
  rfl

end Uint256

/-! ### The compact form -/

/-- The number that the bits of a header stand for. -/
def compactTarget (bits : Nat) : Nat :=
  let exponent := bits / 2 ^ 24
  let mantissa := if exponent ≤ 3 then bits % 2 ^ 24 / 2 ^ (8 * (3 - exponent)) else bits % 2 ^ 24
  if 0x7FFFFF < mantissa then 0
  else if exponent ≤ 3 then mantissa
  else mantissa * 2 ^ (8 * (exponent - 3)) % 2 ^ 256

theorem toNat_fromU64 (x : UInt64) : (Uint256.fromU64 x).toNat = x.toNat := by
  simp [Uint256.fromU64, Uint256.toNat, Limbs.value, List.replicate]

theorem mantissa_shl_eq (checks : Bool) (mant expt : UInt32) :
    ∃ t, (if mant > 0x7FFFFF then some ⟨Vector.replicate 4 0⟩ else (Uint256.fromU64 mant.toUInt64).shl checks expt.toNat) =
        some t ∧
      t.toNat = if 0x7FFFFF < mant.toNat then 0 else mant.toNat * 2 ^ expt.toNat % 2 ^ 256 := by
  have hiff : mant > 0x7FFFFF ↔ 0x7FFFFF < mant.toNat := UInt32.lt_iff_toNat_lt
  by_cases hbig : 0x7FFFFF < mant.toNat
  · exact ⟨_, if_pos (hiff.mpr hbig), (if_pos hbig).symm⟩
  · obtain ⟨t, ht, hvalue⟩ := Uint256.shl_eq checks (Uint256.fromU64 mant.toUInt64) expt.toNat
    rw [toNat_fromU64, UInt32.toNat_toUInt64] at hvalue
    refine ⟨t, ?_, by rw [if_neg hbig, hvalue]⟩
    rw [if_neg fun h => hbig (hiff.mp h), ht]

theorem u256FromCompactTarget_eq (checks : Bool) (bits : UInt32) :
    ∃ t, u256FromCompactTarget checks bits = some t ∧ t.toNat = compactTarget bits.toNat := by
  have hlt := bits.toNat_lt
  have hexp : (bits >>> 24).toNat = bits.toNat / 2 ^ 24 := by
    rw [UInt32.toNat_shiftRight, Nat.shiftRight_eq_div_pow]
    rfl
  have hmant : (bits &&& 0xFFFFFF).toNat = bits.toNat % 2 ^ 24 := by
    rw [UInt32.toNat_and]
    exact Nat.and_two_pow_sub_one_eq_mod bits.toNat 24
  have hle : bits >>> 24 ≤ 3 ↔ bits.toNat / 2 ^ 24 ≤ 3 := by
    rw [UInt32.le_iff_toNat_le, hexp]
    rfl
  unfold u256FromCompactTarget compactTarget
  by_cases hsmall : bits.toNat / 2 ^ 24 ≤ 3
  · have hshift : ((8 : UInt32) * ((3 : UInt32) - bits >>> 24)).toNat = 8 * (3 - bits.toNat / 2 ^ 24) := by
      rw [UInt32.toNat_mul, UInt32.toNat_sub_of_le _ _ (hle.mpr hsmall), hexp]
      simp only [UInt32.reduceToNat]
      omega
    have hmantissa : ((bits &&& 0xFFFFFF) >>> ((8 : UInt32) * ((3 : UInt32) - bits >>> 24))).toNat =
        bits.toNat % 2 ^ 24 / 2 ^ (8 * (3 - bits.toNat / 2 ^ 24)) := by
      have hamount : 8 * (3 - bits.toNat / 2 ^ 24) % 32 = 8 * (3 - bits.toNat / 2 ^ 24) := Nat.mod_eq_of_lt (by omega)
      rw [UInt32.toNat_shiftRight, hmant, hshift, hamount, Nat.shiftRight_eq_div_pow]
    obtain ⟨t, ht, hvalue⟩ :=
      mantissa_shl_eq checks ((bits &&& 0xFFFFFF) >>> ((8 : UInt32) * ((3 : UInt32) - bits >>> 24))) 0
    have hfit : bits.toNat % 2 ^ 24 / 2 ^ (8 * (3 - bits.toNat / 2 ^ 24)) < 2 ^ 256 :=
      Nat.lt_of_le_of_lt (Nat.div_le_self _ _) (by omega)
    rw [hmantissa, UInt32.toNat_zero, Nat.pow_zero, Nat.mul_one, Nat.mod_eq_of_lt hfit] at hvalue
    refine ⟨t, ?_, ?_⟩
    · simp only [if_pos (hle.mpr hsmall)]
      exact ht
    · simp only [if_pos hsmall]
      exact hvalue
  · have hle' : (3 : UInt32) ≤ bits >>> 24 := by
      rw [UInt32.le_iff_toNat_le, hexp]
      exact Nat.le_of_not_le hsmall
    have hexpt : ((8 : UInt32) * (bits >>> 24 - (3 : UInt32))).toNat = 8 * (bits.toNat / 2 ^ 24 - 3) := by
      rw [UInt32.toNat_mul, UInt32.toNat_sub_of_le _ _ hle', hexp]
      simp only [UInt32.reduceToNat]
      omega
    obtain ⟨t, ht, hvalue⟩ :=
      mantissa_shl_eq checks (bits &&& 0xFFFFFF) ((8 : UInt32) * (bits >>> 24 - (3 : UInt32)))
    rw [hmant, hexpt] at hvalue
    refine ⟨t, ?_, ?_⟩
    · simp only [if_neg fun h => hsmall (hle.mp h)]
      exact ht
    · simp only [if_neg hsmall]
      exact hvalue

/-- The shift never overflows and is a product modulo `2 ^ 256`, and with it the compact form is decoded; the
    processor and the kernels compare the hash with the target as numbers. -/
theorem target_arithmetic :
    (∀ (checks : Bool) (x : Uint256) (shift : Nat),
      ∃ y, x.shl checks shift = some y ∧ y.toNat = x.toNat * 2 ^ shift % 2 ^ 256) ∧
    (∀ (checks : Bool) (bits : UInt32),
      ∃ t, u256FromCompactTarget checks bits = some t ∧ t.toNat = compactTarget bits.toNat) ∧
    (∀ x y : Uint256, x.cmp y = compare x.toNat y.toNat ∧ x.le y = decide (x.toNat ≤ y.toNat)) ∧
    (∀ hash target : Uint256, Kernel.hashMeetsTargetWords hash.toLeBytes target.words = hash.le target) ∧
    ∀ (Block : Type) (P : Primitives) (useAvx2 : Bool) (s : State Block) (nonce : UInt64),
      s.checkPow P useAvx2 nonce =
        Kernel.hashMeetsTargetWords (s.calculatePow P useAvx2 nonce).toLeBytes s.target.words :=
  ⟨Uint256.shl_eq, u256FromCompactTarget_eq, fun x y => ⟨x.cmp_eq y, x.le_eq y⟩, Uint256.hashMeetsTargetWords_eq,
    fun _ P useAvx2 s nonce => (Uint256.hashMeetsTargetWords_eq (s.calculatePow P useAvx2 nonce) s.target).symm⟩

end CryptixMiner
